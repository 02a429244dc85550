/-
# Loading a trustlet: `setup_elf`

`loader.c` loads an ELF image into the user half of a new process, whose page table is active.
The image lies in the kernel's memory, so the loader's stores to user addresses do not change what
it reads: the bytes are a function of the address.

`setupElf` is the function as the source has it, with what it reads, maps and stores on record
(`LoadEvent`).
-/
import AndixOs.Mm.Kernel

namespace AndixOs.Loader

open AndixOs AndixOs.Mm

/-! ## 1. The file format -/

def ptLoad : Nat := 1
def ptTls : Nat := 7

def pfX : Nat := 1
def pfW : Nat := 2
def pfR : Nat := 4

/-- The bytes that the loader can read, by their addresses. -/
abbrev Bytes32 := Nat → UInt8

/-- The field of `w` bytes at an address, the lowest byte first. -/
def field (b : Bytes32) (a : Nat) : Nat → Nat
  | 0 => 0
  | w + 1 => (b (w32 a)).toNat + 256 * field b (a + 1) w

/-- What the header of an image must have: offset, width and value, in the order of the tests
(`e_ident`, `e_type`, `e_machine`, `e_version`). -/
def headerChecks : List (Nat × Nat × Nat) :=
  [(0, 1, 0x7F), (1, 1, 0x45), (2, 1, 0x4C), (3, 1, 0x46), (16, 2, 2), (18, 2, 40), (20, 4, 1)]

def eEntry (b : Bytes32) (payload : Nat) : Nat := field b (payload + 24) 4
def ePhoff (b : Bytes32) (payload : Nat) : Nat := field b (payload + 28) 4
def eShoff (b : Bytes32) (payload : Nat) : Nat := field b (payload + 32) 4
def ePhnum (b : Bytes32) (payload : Nat) : Nat := field b (payload + 44) 2
def eShstrndx (b : Bytes32) (payload : Nat) : Nat := field b (payload + 50) 2

/-- The address of `sh_offset` in the section header of the string table. -/
def stringHdrOffset (b : Bytes32) (payload : Nat) : Nat :=
  w32 (payload + eShoff b payload + 40 * eShstrndx b payload + 16)

/-- The fields of an `Elf32_Phdr` that the loader looks at. -/
structure Phdr where
  pType : Nat
  pOffset : Nat
  pVaddr : Nat
  pFilesz : Nat
  pMemsz : Nat
  pFlags : Nat
  deriving DecidableEq

def readPhdr (b : Bytes32) (a : Nat) : Phdr where
  pType := field b a 4
  pOffset := field b (a + 4) 4
  pVaddr := field b (a + 8) 4
  pFilesz := field b (a + 16) 4
  pMemsz := field b (a + 20) 4
  pFlags := field b (a + 24) 4

/-- The address of program header `idx`. -/
def phdrAddr (b : Bytes32) (payload idx : Nat) : Nat := w32 (payload + ePhoff b payload + 32 * idx)

def hasFlag (flags f : Nat) : Bool := flags / f % 2 == 1

/-! ## 2. The state -/

/-- What the loader does: it reads, maps a page and stores, and it starts a loop over the pages of
a segment.  A range that a fault cuts short is on record with its whole length. -/
inductive LoadEvent where
  | read (addr count : Nat)
  | pages (count memsz : Nat)
  | map (vaddr paddr : Nat)
  | store (addr count : Nat)
  deriving DecidableEq

/-- The state: the kernel with the new process, the physical memory, and what the loader sets in
the process. -/
structure LoadState where
  kernel : Kernel
  mem : Mem
  vheap : Nat
  tlsStart : Nat
  tlsSize : Nat
  log : List LoadEvent

def LoadState.record (s : LoadState) (e : LoadEvent) : LoadState := { s with log := e :: s.log }

/-- How `setup_elf` ends.  `fault`: a store faulted, or the entry for the address would lie outside
the process's first-level table, which has 2048 entries. -/
inductive LoadEnd where
  | refused
  | entered (entry : Nat)
  | fault
  deriving DecidableEq

/-- What `setup_elf` returns. -/
def LoadEnd.ret : LoadEnd → Option Nat
  | .refused => some 0xFFFFFFFF
  | .entered entry => some entry
  | .fault => none

/-! ## 3. One segment -/

/-- The first page of a segment. -/
def startPage (ph : Phdr) : Nat := ph.pVaddr / 4096

/-- The number of pages: from the page of the first byte to the page boundary behind the last one,
and one more. -/
def pgCount (ph : Phdr) : Nat :=
  let end_ := w32 (ph.pVaddr + ph.pMemsz)
  let endPage := if end_ % 4096 = 0 then end_ / 4096 else end_ / 4096 + 1
  w32 (sub32 endPage (startPage ph) + 1)

/-- The access rights for `p_flags`. -/
def segAp (flags : Nat) : Nat :=
  if hasFlag flags pfW && hasFlag flags pfR then apSvcRwUsrRw
  else if hasFlag flags pfR then apSvcRwUsrRo else 0

/-- `info.execute`: `EXEC_OK` is 0. -/
def segExecute (flags : Nat) : Nat := if hasFlag flags pfX then 0 else execNon

/-- What `map_memory_v` is asked for. -/
def segInfo (flags vaddr paddr : Nat) : KernelMemInfo :=
  { vaddr := vaddr, paddr := paddr, ap := segAp flags, execute := segExecute flags,
    bufferable := 0, cacheable := 0, domain := 0, nonsecure := 0, shareable := 0, tex := 0,
    type := .smallPage }

/-- `vheap` after a page that ends at `vendaddr`. -/
def heapAfter (vheap vendaddr : Nat) : Nat :=
  if vheap < vendaddr then vendaddr / 4096 * 4096 else vheap

/-- `map_memory_v` on the process's table.  Its result is not looked at. -/
def mapUserPage (s : LoadState) (info : KernelMemInfo) : LoadState :=
  let r := mapMemoryV s.kernel.proc.vuserPD info
  let s := { s with kernel := { s.kernel with proc := { s.kernel.proc with vuserPD := r.2 } } }
  if r.1 = 0 then s.record (.map info.vaddr info.paddr) else s

/-- The body of the mapping loop, for page `i`. -/
def mapRound (ph : Phdr) (ppage i : Nat) (s : LoadState) : LoadState :=
  let s := mapUserPage s
    (segInfo ph.pFlags (w32 (ph.pVaddr + 4096 * i)) (w32 (ppage + 4096 * i)))
  { s with vheap := heapAfter s.vheap (w32 (ph.pVaddr + 4096 * (i + 1))) }

/-- The mapping loop from page `i` on, with `left` pages to go. -/
def mapSegment (ph : Phdr) (ppage : Nat) : Nat → Nat → LoadState → Bool × LoadState
  | 0, _, s => (true, s)
  | left + 1, i, s =>
    if 0x80000000 ≤ w32 (ph.pVaddr + 4096 * i) then
      (false, s.record (.map (w32 (ph.pVaddr + 4096 * i)) (w32 (ppage + 4096 * i))))
    else mapSegment ph ppage left (i + 1) (mapRound ph ppage i s)

/-- A run of stores from `addr` on. -/
def storeRun (s : LoadState) (addr count : Nat) (src : Nat → UInt8) : Bool × LoadState :=
  let r := storeBytes (fun j => writeAddr s.kernel (w32 (addr + j))) src count 0 s.mem
  (r.1, { s with mem := r.2 }.record (.store addr count))

/-- The pages of a segment are allocated: the first, and the state in which the mapping starts. -/
def allocSegment (s : LoadState) (ph : Phdr) : Nat × LoadState :=
  let r := pmmAllocatePages s.kernel (pgCount ph)
  (r.1, { s with kernel := r.2 }.record (.pages (pgCount ph) ph.pMemsz))

/-- The pages of a segment are allocated and mapped. -/
def placeSegment (s : LoadState) (ph : Phdr) : Bool × LoadState :=
  let r := allocSegment s ph
  mapSegment ph r.1 (pgCount ph) 0 r.2

/-- The pages are filled with zeros, word by word. -/
def zeroSegment (s : LoadState) (ph : Phdr) : Bool × LoadState :=
  storeRun s (startPage ph * 4096) (w32 (pgCount ph * 4096) / 4 * 4) fun _ => 0

/-- The words of the file part are copied: `p_filesz / 4` of them. -/
def copySegment (b : Bytes32) (payload : Nat) (s : LoadState) (ph : Phdr) : Bool × LoadState :=
  storeRun (s.record (.read (w32 (payload + ph.pOffset)) (ph.pFilesz / 4 * 4))) ph.pVaddr
    (ph.pFilesz / 4 * 4) fun j => b (w32 (payload + ph.pOffset + j))

/-- Both loops. -/
def fillSegment (b : Bytes32) (payload : Nat) (s : LoadState) (ph : Phdr) : Bool × LoadState :=
  let z := zeroSegment s ph
  if z.1 then copySegment b payload z.2 ph else z

/-- The body for a `PT_LOAD` header. -/
def loadSegment (b : Bytes32) (payload : Nat) (s : LoadState) (ph : Phdr) : Bool × LoadState :=
  let p := placeSegment s ph
  if p.1 then fillSegment b payload p.2 ph else p

/-! ## 4. `setup_elf` -/

/-- The tests of the header, up to the first that fails. -/
def checkHeader (b : Bytes32) (payload : Nat) :
    List (Nat × Nat × Nat) → LoadState → Bool × LoadState
  | [], s => (true, s)
  | (off, w, v) :: cs, s =>
    let s := s.record (.read (w32 (payload + off)) w)
    if field b (payload + off) w ≠ v then (false, s) else checkHeader b payload cs s

/-- The type of a header is read. -/
def readType (b : Bytes32) (payload idx : Nat) (s : LoadState) : LoadState :=
  s.record (.read (phdrAddr b payload idx) 4)

/-- The fields at these offsets of a header are read. -/
def readFields (b : Bytes32) (payload idx : Nat) (s : LoadState) (offs : List Nat) : LoadState :=
  offs.foldl (fun s o => s.record (.read (w32 (phdrAddr b payload idx + o)) 4)) s

/-- The offsets of the fields that are read for a `PT_LOAD` header, in the order of the code, and
for a `PT_TLS` header. -/
def loadFields : List Nat := [4, 24, 8, 20, 16]
def tlsFields : List Nat := [8, 20]

/-- A `PT_LOAD` header. -/
def loadHeader (b : Bytes32) (payload idx : Nat) (s : LoadState) : Bool × LoadState :=
  loadSegment b payload (readFields b payload idx (readType b payload idx s) loadFields)
    (readPhdr b (phdrAddr b payload idx))

/-- Any other header: the template of a `PT_TLS` header goes to the process. -/
def otherHeader (b : Bytes32) (payload idx : Nat) (s : LoadState) : LoadState :=
  let ph := readPhdr b (phdrAddr b payload idx)
  let s := readType b payload idx s
  if ph.pType = ptTls then
    { readFields b payload idx s tlsFields with tlsStart := ph.pVaddr, tlsSize := ph.pMemsz }
  else s

/-- The loop over the program headers, with `left` to go; `none` when it comes to its end.
`e_phnum` and `e_phoff` are read again in every round, which is on record once, before. -/
def loadHeaders (b : Bytes32) (payload size : Nat) :
    Nat → Nat → LoadState → Option LoadEnd × LoadState
  | 0, _, s => (none, s)
  | left + 1, idx, s =>
    if w32 (payload + size) < phdrAddr b payload idx then (some .refused, s)
    else if (readPhdr b (phdrAddr b payload idx)).pType = ptLoad then
      let r := loadHeader b payload idx s
      if r.1 then loadHeaders b payload size left (idx + 1) r.2 else (some .fault, r.2)
    else loadHeaders b payload size left (idx + 1) (otherHeader b payload idx s)

/-- The reads between the header tests and the loop. -/
def readHeader (b : Bytes32) (payload : Nat) (s : LoadState) : LoadState :=
  let s := (s.record (.read (w32 (payload + 32)) 4)).record (.read (w32 (payload + 50)) 2)
  let s := s.record (.read (stringHdrOffset b payload) 4)
  (s.record (.read (w32 (payload + 44)) 2)).record (.read (w32 (payload + 28)) 4)

/-- The loop, and the entry point. -/
def loadImage (b : Bytes32) (payload size : Nat) (s : LoadState) : LoadEnd × LoadState :=
  match loadHeaders b payload size (ePhnum b payload) 0 s with
  | (some e, s) => (e, s)
  | (none, s) => (.entered (eEntry b payload), s.record (.read (w32 (payload + 24)) 4))

/-- `setup_elf`. -/
def setupElf (b : Bytes32) (payload size : Nat) (s : LoadState) : LoadEnd × LoadState :=
  let c := checkHeader b payload headerChecks { s with vheap := 0 }
  if c.1 then loadImage b payload size (readHeader b payload c.2) else (.refused, c.2)

end AndixOs.Loader
