/-
# The user's pointers in `swi_read`, `swi_write` and `swi_open`

These calls take a pointer from the caller and check it with `is_valid_user_addr`, which looks at
one byte: it has to lie below `0x80000000` and to be mapped.  The kernel then reads or writes from
there on, without another check, as many bytes as the caller says or as come before a NUL.  What is
touched behind the first byte is the caller's as long as each further page is
(`newlib_accesses_mapped_iff`).
-/
import AndixOs.Mm.Mapping
import AndixOs.Task.Files

namespace AndixOs.Swi

open AndixOs AndixOs.Mm AndixOs.Task

/-! ## 1. `is_valid_user_addr` -/

/-- The process that calls: its mappings and the memory behind them, its open files, and the
attribute bits that a translation leaves in the low part of the PAR. -/
structure Caller where
  k : Kernel
  m : Mem
  files : Files
  parBits : PageAttr → Nat

/-- `is_kernel_addr`. -/
def isKernelAddr (value : Nat) : Bool := decide (value ≥ 0x80000000)

/-- `is_valid_addr`: a write translation.  After a fault the PAR holds a status below `0xFF`. -/
def isValidAddr (c : Caller) (ptr : Nat) : Bool :=
  if ptr = 0 then false
  else
    match Mm.translate c.k ptr with
    | none => false
    | some l => l.svcWrites && decide (0xFF ≤ l.pa / 0x1000 * 0x1000 + c.parBits l.attr)

/-- `is_valid_user_addr`. -/
def isValidUserAddr (c : Caller) (ptr : Nat) : Bool :=
  if isKernelAddr ptr then false else isValidAddr c ptr

/-- An address that the caller itself could use. -/
def userMapped (k : Kernel) (x : Nat) : Prop :=
  x < 0x80000000 ∧ (walk k.proc.vuserPD x).isSome = true

/-! ## 2. Accesses through a user's pointer -/

/-- `"/dev/urandom"` is compared with a name byte by byte, the other strings are read up to their
NUL. -/
inductive UserAccess where
  | bytes (addr count : Nat)
  | string (m : Mem) (addr : Nat)
  | compare (m : Mem) (addr : Nat)

def UserAccess.addr : UserAccess → Nat
  | .bytes a _ => a
  | .string _ a => a
  | .compare _ a => a

/-- The byte that the kernel reads at an address of its own or of the process. -/
def byteAt (k : Kernel) (m : Mem) (x : Nat) : Option UInt8 := (readAddr k (w32 x)).map m

/-- The walk along a string comes to byte `i`. -/
def stringTouches (k : Kernel) (m : Mem) (a i : Nat) : Prop :=
  ∀ j < i, ∃ b, byteAt k m (a + j) = some b ∧ b ≠ 0

/-- The comparison of `strncmp` with `"/dev/urandom"` comes to byte `i`. -/
def compareTouches (k : Kernel) (m : Mem) (a i : Nat) : Prop :=
  i < urandomName.length ∧ ∀ j < i, byteAt k m (a + j) = urandomName[j]?

/-- The access comes to the byte `i` behind its address. -/
def UserAccess.touches (k : Kernel) : UserAccess → Nat → Prop
  | .bytes _ count, i => i < count
  | .string m a, i => stringTouches k m a i
  | .compare m a, i => compareTouches k m a i

/-- Every byte touched is one of the caller's. -/
def AccessesMapped (k : Kernel) (accs : List UserAccess) : Prop :=
  ∀ acc ∈ accs, ∀ i, acc.touches k i → userMapped k (w32 (acc.addr + i))

/-! ## 3. The calls -/

/-- What the devices and the file system answer in a call: the characters of `getchar`, whether the
file system is there, the position of the file, for each block that `fs_read` asks for its count
(`none`: it cannot be read or does not verify), the result of `fs_write`, and whether `kmalloc`
succeeds for the handle and the file. -/
structure IoAnswers where
  input : Nat → UInt8
  fsInit : Bool
  filepos : Nat
  blocks : List (Option Nat)
  written : Int
  allocated : Bool

/-- Everything works, and the console sends no end of line. -/
def IoAnswers.ready : IoAnswers := ⟨fun _ => 0xFF, true, 0, [], 0, true⟩

instance : Nonempty IoAnswers := ⟨.ready⟩

/-- `CFS_BLK_SIZE`. -/
def blkSize : Nat := 940

/-- The loop of `fs_read`: whether it ends well, the bytes read, and its accesses. -/
def fsReadLoop (buf count : Nat) : List (Option Nat) → Nat → Nat → Bool × Nat × List UserAccess
  | some len :: blocks, filepos, total =>
    if blkSize < len ∨ len < filepos % blkSize then (false, total, [])
    else
      let reading := min (len - filepos % blkSize) (count - total)
      let copied := UserAccess.bytes (buf + total) reading
      if len < blkSize ∨ count ≤ total + reading then (true, total + reading, [copied])
      else
        let (ok, n, accs) := fsReadLoop buf count blocks (w32 (filepos + reading)) (total + reading)
        (ok, n, copied :: accs)
  | _, _, total => (false, total, [])

/-- `fs_read`.  What was read is printed, or cleared where the loop failed. -/
def fsRead (io : IoAnswers) (buf count : Nat) : Int × List UserAccess :=
  if io.fsInit = false then (-1, [])
  else
    let (ok, n, accs) := fsReadLoop buf count io.blocks io.filepos 0
    (if ok then (n : Int) else -1, accs ++ [.bytes buf n])

/-- `fs_write`, which prints what it is given. -/
def fsWrite (io : IoAnswers) (buf count : Nat) : Int × List UserAccess :=
  if io.fsInit = false then (-1, []) else (io.written, [.bytes buf count])

/-- `hdl->data` of the handle of a descriptor, if there is one. -/
def fileOf (f : Files) (socket : Int) : Option Nat :=
  match procGetFhandle f socket with
  | some (some hdl) => (f.handles hdl).data
  | _ => none

/-- `swi_write`. -/
def swiWrite (c : Caller) (io : IoAnswers) (socket : Int) (buffer size : Nat) :
    Int × List UserAccess :=
  if isValidUserAddr c buffer = false then (-1, [])
  else if socket = 0 ∨ socket = 3 then (-1, [])
  else if socket = 1 then (size, [.bytes buffer size])
  else if socket = 2 then (size, [.bytes buffer size, .string c.m buffer])
  else
    match fileOf c.files socket with
    | none => (-1, [])
    | some _ => fsWrite io buffer size

/-- The stores of the kernel through a user's buffer. -/
def storeUser (k : Kernel) (m : Mem) (buffer : Nat) (src : Nat → UInt8) (count : Nat) : Mem :=
  (storeBytes (fun i => writeAddr k (w32 (buffer + i))) src count 0 m).2

/-- `getinput` stops at a line feed or a carriage return. -/
def inputLength (input : Nat → UInt8) : Nat → Nat
  | 0 => 0
  | n + 1 => if input 0 = 0xA ∨ input 0 = 0xD then 0 else inputLength (fun i => input (i + 1)) n + 1

/-- The memory after `memset` and `getinput`. -/
def stdinMem (c : Caller) (io : IoAnswers) (buffer size : Nat) : Mem :=
  storeUser c.k (storeUser c.k c.m buffer (fun _ => 0) size) buffer io.input
    (inputLength io.input size)

/-- `swi_read`.  `/dev/urandom` has no handle: the buffer is filled, and the result is -1. -/
def swiRead (c : Caller) (io : IoAnswers) (socket : Int) (buffer size : Nat) :
    Int × List UserAccess :=
  if isValidUserAddr c buffer = false then (-1, [])
  else if socket = 1 ∨ socket = 2 then (-1, [])
  else if socket = 0 then
    (size, [.bytes buffer size, .bytes buffer (inputLength io.input size),
      .string (stdinMem c io buffer size) buffer])
  else
    let filled := if socket = 3 then [UserAccess.bytes buffer size] else []
    match fileOf c.files socket with
    | none => (-1, filled)
    | some _ => ((fsRead io buffer size).1, filled ++ (fsRead io buffer size).2)

/-- The name is `/dev/urandom` or longer. -/
def isUrandom (c : Caller) (name : Nat) : Prop :=
  ∀ j < urandomName.length, byteAt c.k c.m (name + j) = urandomName[j]?

instance (c : Caller) (name : Nat) : Decidable (isUrandom c name) :=
  inferInstanceAs (Decidable (∀ j < _, _))

/-- What `swi_open` reads of its name. -/
def swiOpenReads (c : Caller) (io : IoAnswers) (name : Nat) : List UserAccess :=
  if isValidUserAddr c name = false then []
  else if isUrandom c name then [.compare c.m name]
  else if io.allocated = false then [.compare c.m name]
  else [.compare c.m name, .string c.m name]

/-- A call with what the caller passes. -/
inductive UserCall where
  | read (socket : Int) (buffer size : Nat)
  | write (socket : Int) (buffer size : Nat)
  | openFile (name : Nat)

def UserCall.pointer : UserCall → Nat
  | .read _ buffer _ => buffer
  | .write _ buffer _ => buffer
  | .openFile name => name

/-- The accesses of a call. -/
def callAccesses (c : Caller) (io : IoAnswers) : UserCall → List UserAccess
  | .read socket buffer size => (swiRead c io socket buffer size).2
  | .write socket buffer size => (swiWrite c io socket buffer size).2
  | .openFile name => swiOpenReads c io name

/-! ## 4. The condition -/

/-- Every page that the bytes enter behind that of the first is one of the caller's. -/
def laterPagesMapped (k : Kernel) (a : Nat) (touched : Nat → Prop) : Prop :=
  ∀ i, 0 < i → touched i → (a + i) % 0x1000 = 0 → userMapped k (a + i)

/-- The memory after a buffer is filled with characters. -/
def filledMem (c : Caller) (buffer size : Nat) : Mem :=
  storeUser c.k c.m buffer (fun _ => 0xFF) size

/-- The further pages of what the call transfers: the range, the string that is printed from
standard error or after reading standard input, or the name. -/
def callPagesMapped (c : Caller) : UserCall → Prop
  | .read socket buffer size =>
    if socket = 1 ∨ socket = 2 then True
    else if socket = 0 then
      laterPagesMapped c.k buffer (· < size) ∧
        laterPagesMapped c.k buffer (stringTouches c.k (filledMem c buffer size) buffer)
    else if socket = 3 ∨ (fileOf c.files socket).isSome = true then
      laterPagesMapped c.k buffer (· < size)
    else True
  | .write socket buffer size =>
    if socket = 0 ∨ socket = 3 then True
    else if socket = 1 then laterPagesMapped c.k buffer (· < size)
    else if socket = 2 then
      laterPagesMapped c.k buffer (· < size) ∧
        laterPagesMapped c.k buffer (stringTouches c.k c.m buffer)
    else if (fileOf c.files socket).isSome = true then laterPagesMapped c.k buffer (· < size)
    else True
  | .openFile name =>
    if isUrandom c name then laterPagesMapped c.k name (compareTouches c.k c.m name)
    else laterPagesMapped c.k name (stringTouches c.k c.m name)

variable {c : Caller} {k : Kernel} {m : Mem} {a i : Nat} {touched : Nat → Prop}

/-! ## 5. Pages -/

/-- The check looks at the byte that it is given. -/
theorem userMapped_of_valid (h : isValidUserAddr c a = true) : userMapped c.k a := by
  unfold isValidUserAddr isValidAddr isKernelAddr at h
  split_ifs at h with hkernel hnull
  have hlow : a < 0x80000000 := by simpa using hkernel
  cases ht : Mm.translate c.k a with
  | none => simp [ht] at h
  | some l =>
    rw [Mm.translate, if_pos hlow] at ht
    exact ⟨hlow, by rw [ht]; rfl⟩

/-- A page is mapped as a whole. -/
theorem userMapped_page {b : Nat} (h : userMapped k a) (hpage : b / 0x1000 = a / 0x1000) :
    userMapped k b := by
  obtain ⟨hlow, hmap⟩ := h
  refine ⟨by omega, ?_⟩
  by_contra hnone
  rw [Bool.not_eq_true, Option.isSome_eq_false_iff, Option.isNone_iff_eq_none] at hnone
  rw [walk_none_page hnone hpage.symm] at hmap
  exact Bool.false_ne_true hmap

/-- From a byte of the caller's to the next one. -/
theorem userMapped_succ (h : userMapped k a)
    (hnew : (a + 1) % 0x1000 = 0 → userMapped k (a + 1)) : userMapped k (a + 1) := by
  by_cases hpage : (a + 1) % 0x1000 = 0
  · exact hnew hpage
  · exact userMapped_page h (by omega)

/-- **What is touched from a valid address on** is the caller's exactly when each further page is. -/
theorem touched_mapped_iff (ha : userMapped k a)
    (hclosed : ∀ i, touched (i + 1) → touched i) :
    (∀ i, touched i → userMapped k (w32 (a + i))) ↔ laterPagesMapped k a touched := by
  constructor
  · intro h
    have hbelow : ∀ i, touched i → w32 (a + i) = a + i := by
      intro i
      induction i with
      | zero => exact fun _ => w32_of_lt (by have := ha.1; omega)
      | succ i ih =>
        intro hi
        have hprev := (h i (hclosed i hi)).1
        rw [ih (hclosed i hi)] at hprev
        exact w32_of_lt (by omega)
    intro i _ hi _
    rw [← hbelow i hi]
    exact h i hi
  · intro h
    have hall : ∀ i, touched i → userMapped k (a + i) := by
      intro i
      induction i with
      | zero => exact fun _ => ha
      | succ i ih =>
        exact fun hi => userMapped_succ (ih (hclosed i hi)) (h (i + 1) (Nat.succ_pos i) hi)
    intro i hi
    have hmap := hall i hi
    have hlow := hmap.1
    rw [w32_of_lt (by omega)]
    exact hmap

theorem UserAccess.touches_closed (k : Kernel) (acc : UserAccess) (i : Nat)
    (h : acc.touches k (i + 1)) : acc.touches k i := by
  cases acc with
  | bytes _ count => exact Nat.lt_of_succ_lt h
  | string m a => exact fun j hj => h j (Nat.lt_succ_of_lt hj)
  | compare m a => exact ⟨Nat.lt_of_succ_lt h.1, fun j hj => h.2 j (Nat.lt_succ_of_lt hj)⟩

/-- One access from the pointer that was checked. -/
theorem access_mapped_iff (acc : UserAccess) (ha : userMapped k acc.addr) :
    (∀ i, acc.touches k i → userMapped k (w32 (acc.addr + i))) ↔
      laterPagesMapped k acc.addr (acc.touches k) :=
  touched_mapped_iff ha (acc.touches_closed k)

@[simp] theorem accessesMapped_nil : AccessesMapped k [] := fun _ h => absurd h List.not_mem_nil

theorem accessesMapped_cons {acc : UserAccess} {accs : List UserAccess} :
    AccessesMapped k (acc :: accs) ↔
      (∀ i, acc.touches k i → userMapped k (w32 (acc.addr + i))) ∧ AccessesMapped k accs :=
  List.forall_mem_cons

theorem accessesMapped_append {accs accs' : List UserAccess} :
    AccessesMapped k (accs ++ accs') ↔ AccessesMapped k accs ∧ AccessesMapped k accs' :=
  List.forall_mem_append

/-! ## 6. `fs_read` -/

/-- Bytes inside the buffer. -/
theorem bytes_mapped {count from_ n : Nat} (ha : userMapped k a)
    (h : laterPagesMapped k a (· < count)) (hle : from_ + n ≤ count) :
    ∀ i, (UserAccess.bytes (a + from_) n).touches k i → userMapped k (w32 (a + from_ + i)) := by
  intro i hi
  have hlt : from_ + i < count := by
    have hi' : i < n := hi
    omega
  have hall := (access_mapped_iff (.bytes a count) ha).mpr h (from_ + i) hlt
  rwa [Nat.add_assoc]

/-- The loop stays in the buffer. -/
theorem fsReadLoop_mapped {count : Nat} (ha : userMapped k a)
    (h : laterPagesMapped k a (· < count)) :
    ∀ (blocks : List (Option Nat)) (filepos total : Nat), total ≤ count →
      (fsReadLoop a count blocks filepos total).2.1 ≤ count ∧
        AccessesMapped k (fsReadLoop a count blocks filepos total).2.2
  | [], _, _, ht => ⟨ht, accessesMapped_nil⟩
  | none :: _, _, _, ht => ⟨ht, accessesMapped_nil⟩
  | some len :: blocks, filepos, total, ht => by
    rw [fsReadLoop]
    split
    · exact ⟨ht, accessesMapped_nil⟩
    · have hle : total + min (len - filepos % blkSize) (count - total) ≤ count := by omega
      have hcopied := bytes_mapped ha h hle
      dsimp only
      split
      · exact ⟨hle, accessesMapped_cons.mpr ⟨hcopied, accessesMapped_nil⟩⟩
      · obtain ⟨hn, haccs⟩ := fsReadLoop_mapped ha h blocks
          (w32 (filepos + min (len - filepos % blkSize) (count - total))) _ hle
        exact ⟨hn, accessesMapped_cons.mpr ⟨hcopied, haccs⟩⟩

/-- Full blocks fill the buffer. -/
theorem fsReadLoop_fills (buf count : Nat) : ∀ (left filepos total : Nat), total + left = count →
    ∃ blocks, (fsReadLoop buf count blocks filepos total).2.1 = count := by
  intro left
  induction left using Nat.strong_induction_on with
  | _ left ih =>
    intro filepos total hcount
    have hblk : filepos % blkSize < blkSize := Nat.mod_lt _ (by decide)
    have hlen : ¬ (blkSize < blkSize ∨ blkSize < filepos % blkSize) := by omega
    by_cases hend : count ≤ total + min (blkSize - filepos % blkSize) (count - total)
    · refine ⟨[some blkSize], ?_⟩
      rw [fsReadLoop, if_neg hlen]
      dsimp only
      rw [if_pos (Or.inr hend)]
      dsimp only
      omega
    · obtain ⟨blocks, hblocks⟩ := ih (left - (blkSize - filepos % blkSize)) (by omega)
        (w32 (filepos + min (blkSize - filepos % blkSize) (count - total)))
        (total + min (blkSize - filepos % blkSize) (count - total)) (by omega)
      refine ⟨some blkSize :: blocks, ?_⟩
      rw [fsReadLoop, if_neg hlen]
      dsimp only
      rw [if_neg (by omega)]
      exact hblocks

/-- **`fs_read`** can touch every byte of the buffer, and no other. -/
theorem fsRead_mapped_iff {count : Nat} (ha : userMapped k a) :
    (∀ io, AccessesMapped k (fsRead io a count).2) ↔ laterPagesMapped k a (· < count) := by
  constructor
  · intro h
    obtain ⟨blocks, hblocks⟩ := fsReadLoop_fills a count count 0 0 (Nat.zero_add count)
    have hio := h { IoAnswers.ready with blocks := blocks }
    have haccs : (fsRead { IoAnswers.ready with blocks := blocks } a count).2 =
        (fsReadLoop a count blocks 0 0).2.2 ++ [.bytes a count] := by
      rw [fsRead, if_neg (by simp [IoAnswers.ready])]
      unfold IoAnswers.ready
      dsimp only
      rw [hblocks]
    rw [haccs, accessesMapped_append, accessesMapped_cons] at hio
    exact (access_mapped_iff (.bytes a count) ha).mp hio.2.1
  · intro h io
    rw [fsRead]
    split
    · exact accessesMapped_nil
    · obtain ⟨hn, haccs⟩ := fsReadLoop_mapped ha h io.blocks io.filepos 0 (Nat.zero_le count)
      refine accessesMapped_append.mpr ⟨haccs, accessesMapped_cons.mpr ⟨?_, accessesMapped_nil⟩⟩
      intro i hi
      exact (access_mapped_iff (.bytes a count) ha).mpr h i (Nat.lt_of_lt_of_le hi hn)

/-! ## 7. Standard input -/

theorem inputLength_le : ∀ (n : Nat) (input : Nat → UInt8), inputLength input n ≤ n
  | 0, _ => le_refl 0
  | n + 1, input => by
    rw [inputLength]
    split
    · exact Nat.zero_le _
    · exact Nat.succ_le_succ (inputLength_le n _)

theorem inputLength_const : ∀ n : Nat, inputLength (fun _ => 0xFF) n = n
  | 0 => rfl
  | n + 1 => by
    rw [inputLength, if_neg (by decide), inputLength_const n]

/-- A string ends no later where more bytes are NUL. -/
theorem stringTouches_mono {m' : Mem} (h : ∀ x, m x ≠ 0 → m' x ≠ 0)
    (ht : stringTouches k m a i) : stringTouches k m' a i := by
  intro j hj
  obtain ⟨b, hb, hne⟩ := ht j hj
  obtain ⟨x, hx, rfl⟩ := Option.map_eq_some_iff.mp hb
  exact ⟨m' x, by rw [byteAt, hx]; rfl, h x hne⟩

/-- A typed line leaves no more than the filled buffer. -/
theorem stdinMem_ne_zero (io : IoAnswers) (buffer size x : Nat)
    (h : stdinMem c io buffer size x ≠ 0) : filledMem c buffer size x ≠ 0 := by
  rcases storeBytes_covers (fun i => writeAddr c.k (w32 (buffer + i))) 0xFF size 0 x with
    hcov | hout
  · rw [filledMem, storeUser, hcov]
    decide
  · rw [stdinMem, storeUser, storeUser, hout _ _ _ (inputLength_le size io.input),
      hout _ _ _ (le_refl size)] at h
    rwa [filledMem, storeUser, hout _ _ _ (le_refl size)]

/-- A line that fills the buffer. -/
theorem stdinMem_filled (io : IoAnswers) (hio : io.input = fun _ => 0xFF) (buffer size : Nat) :
    stdinMem c io buffer size = filledMem c buffer size := by
  funext x
  rw [stdinMem, hio, inputLength_const]
  rcases storeBytes_covers (fun i => writeAddr c.k (w32 (buffer + i))) 0xFF size 0 x with
    hcov | hout
  · rw [filledMem, storeUser, storeUser, storeUser, hcov, hcov]
  · rw [filledMem, storeUser, storeUser, storeUser, hout _ _ _ (le_refl size),
      hout _ _ _ (le_refl size), hout _ _ _ (le_refl size)]

theorem stdin_mapped_iff {buffer size : Nat} (ha : userMapped c.k buffer) :
    (∀ io, AccessesMapped c.k [.bytes buffer size, .bytes buffer (inputLength io.input size),
        .string (stdinMem c io buffer size) buffer]) ↔
      laterPagesMapped c.k buffer (· < size) ∧
        laterPagesMapped c.k buffer (stringTouches c.k (filledMem c buffer size) buffer) := by
  constructor
  · intro h
    have hio := h .ready
    rw [accessesMapped_cons, accessesMapped_cons, accessesMapped_cons,
      stdinMem_filled _ rfl] at hio
    exact ⟨(access_mapped_iff (.bytes buffer size) ha).mp hio.1,
      (access_mapped_iff (.string (filledMem c buffer size) buffer) ha).mp hio.2.2.1⟩
  · rintro ⟨hrange, hstring⟩ io
    have hbytes := (access_mapped_iff (.bytes buffer size) ha).mpr hrange
    have hprinted := (access_mapped_iff (.string (filledMem c buffer size) buffer) ha).mpr
      hstring
    rw [accessesMapped_cons, accessesMapped_cons, accessesMapped_cons]
    refine ⟨hbytes, fun i hi => ?_, fun i hi => ?_, accessesMapped_nil⟩
    · exact hbytes i (Nat.lt_of_lt_of_le hi (inputLength_le size io.input))
    · exact hprinted i (stringTouches_mono (stdinMem_ne_zero io buffer size) hi)

/-! ## 8. The three calls -/

/-- What `strncmp` reads of another name is part of the name. -/
theorem stringTouches_of_compare (h : compareTouches k m a i) : stringTouches k m a i := by
  intro j hj
  have hlen := Nat.lt_trans hj h.1
  refine ⟨urandomName[j], (h.2 j hj).trans (List.getElem?_eq_getElem hlen), ?_⟩
  have hall : ∀ b ∈ urandomName, b ≠ 0 := by simp [urandomName]
  exact hall _ (List.getElem_mem hlen)

theorem swiRead_mapped_iff {socket : Int} {buffer size : Nat}
    (hvalid : isValidUserAddr c buffer = true) :
    (∀ io, AccessesMapped c.k (swiRead c io socket buffer size).2) ↔
      callPagesMapped c (.read socket buffer size) := by
  have ha := userMapped_of_valid hvalid
  have hfalse : ¬ isValidUserAddr c buffer = false := by simp [hvalid]
  have hbytes := access_mapped_iff (.bytes buffer size) ha
  simp only [swiRead, callPagesMapped, if_neg hfalse]
  by_cases hout : socket = 1 ∨ socket = 2
  · simp only [if_pos hout, accessesMapped_nil, implies_true]
  by_cases hin : socket = 0
  · simp only [if_neg hout, if_pos hin]
    exact stdin_mapped_iff ha
  simp only [if_neg hout, if_neg hin]
  cases hfile : fileOf c.files socket with
  | none =>
    by_cases hrandom : socket = 3
    · simp only [if_pos hrandom, if_pos (Or.inl hrandom), accessesMapped_cons, accessesMapped_nil,
        and_true, forall_const]
      exact hbytes
    · simp [if_neg hrandom]
  | some data =>
    simp only [Option.isSome_some, or_true, if_true, accessesMapped_append, forall_and,
      fsRead_mapped_iff ha]
    refine and_iff_right_of_imp fun h io => ?_
    split
    · exact accessesMapped_cons.mpr ⟨hbytes.mpr h, accessesMapped_nil⟩
    · exact accessesMapped_nil

theorem swiWrite_mapped_iff {socket : Int} {buffer size : Nat}
    (hvalid : isValidUserAddr c buffer = true) :
    (∀ io, AccessesMapped c.k (swiWrite c io socket buffer size).2) ↔
      callPagesMapped c (.write socket buffer size) := by
  have ha := userMapped_of_valid hvalid
  have hfalse : ¬ isValidUserAddr c buffer = false := by simp [hvalid]
  have hbytes := access_mapped_iff (.bytes buffer size) ha
  have hprinted := access_mapped_iff (.string c.m buffer) ha
  simp only [swiWrite, callPagesMapped, if_neg hfalse]
  by_cases hin : socket = 0 ∨ socket = 3
  · simp only [if_pos hin, accessesMapped_nil, implies_true]
  by_cases hout : socket = 1
  · simp only [if_neg hin, if_pos hout, accessesMapped_cons, accessesMapped_nil, and_true,
      forall_const]
    exact hbytes
  by_cases herr : socket = 2
  · simp only [if_neg hin, if_neg hout, if_pos herr, accessesMapped_cons, accessesMapped_nil,
      and_true, forall_const]
    exact and_congr hbytes hprinted
  simp only [if_neg hin, if_neg hout, if_neg herr]
  cases hfile : fileOf c.files socket with
  | none => simp
  | some data =>
    simp only [Option.isSome_some, if_true]
    constructor
    · intro h
      have hio := h .ready
      rw [fsWrite, if_neg (by simp [IoAnswers.ready]), accessesMapped_cons] at hio
      exact hbytes.mp hio.1
    · intro h io
      rw [fsWrite]
      split
      · exact accessesMapped_nil
      · exact accessesMapped_cons.mpr ⟨hbytes.mpr h, accessesMapped_nil⟩

theorem swiOpenReads_mapped_iff {name : Nat} (hvalid : isValidUserAddr c name = true) :
    (∀ io, AccessesMapped c.k (swiOpenReads c io name)) ↔ callPagesMapped c (.openFile name) := by
  have ha := userMapped_of_valid hvalid
  have hfalse : ¬ isValidUserAddr c name = false := by simp [hvalid]
  have hcompare := access_mapped_iff (.compare c.m name) ha
  have hstring := access_mapped_iff (.string c.m name) ha
  simp only [swiOpenReads, callPagesMapped, if_neg hfalse]
  by_cases hrandom : isUrandom c name
  · simp only [if_pos hrandom, accessesMapped_cons, accessesMapped_nil, and_true, forall_const]
    exact hcompare
  simp only [if_neg hrandom]
  constructor
  · intro h
    have hio := h .ready
    rw [if_neg (by simp [IoAnswers.ready]), accessesMapped_cons, accessesMapped_cons] at hio
    exact hstring.mp hio.2.1
  · intro h io
    have hname := hstring.mpr h
    have hprefix : AccessesMapped c.k [.compare c.m name] := accessesMapped_cons.mpr
      ⟨fun i hi => hname i (stringTouches_of_compare hi), accessesMapped_nil⟩
    split
    · exact hprefix
    · exact accessesMapped_cons.mpr ⟨(accessesMapped_cons.mp hprefix).1,
        accessesMapped_cons.mpr ⟨hname, accessesMapped_nil⟩⟩

/-- **What the kernel touches for its caller.**  Whatever the devices and the file system answer,
every byte that `swi_read`, `swi_write` or `swi_open` reads or writes through an accepted pointer
lies below `0x80000000` and is mapped in the caller's address space exactly when that is so of every
page that the range, or the string, enters behind the page of its first byte. -/
theorem newlib_accesses_mapped_iff (c : Caller) (call : UserCall) :
    (∀ io, AccessesMapped c.k (callAccesses c io call)) ↔
      (isValidUserAddr c call.pointer = true → callPagesMapped c call) := by
  by_cases hvalid : isValidUserAddr c call.pointer = true
  · rw [imp_iff_right hvalid]
    cases call with
    | read socket buffer size => exact swiRead_mapped_iff hvalid
    | write socket buffer size => exact swiWrite_mapped_iff hvalid
    | openFile name => exact swiOpenReads_mapped_iff hvalid
  · refine iff_of_true (fun io => ?_) (fun h => absurd h hvalid)
    rw [Bool.not_eq_true] at hvalid
    have hnone : callAccesses c io call = [] := by
      cases call with
      | read socket buffer size => exact congrArg Prod.snd (if_pos hvalid)
      | write socket buffer size => exact congrArg Prod.snd (if_pos hvalid)
      | openFile name => exact if_pos hvalid
    rw [hnone]
    exact accessesMapped_nil

/-- A process with one page, at `0x8000`. -/
def onePage : Caller where
  k := { bootKernel with
    proc := { bootKernel.proc with
      vuserPD := (mapMemoryV emptyTable ⟨0x8000, 0x76500000, apSvcRwUsrRw, execNon, 1, 1, 0, 0, 0, 0,
        .smallPage⟩).2 } }
  m := fun _ => 0
  files := .init
  parBits := fun _ => 0

/-- **Two bytes from the last byte of the page on** are accepted, and the second is not mapped. -/
theorem write_leaves_page :
    isValidUserAddr onePage 0x8FFF = true ∧
      ¬ ∀ io, AccessesMapped onePage.k (callAccesses onePage io (.write 1 0x8FFF 2)) := by
  refine ⟨by decide, fun h => ?_⟩
  have haccs : callAccesses onePage .ready (.write 1 0x8FFF 2) = [.bytes 0x8FFF 2] := rfl
  have hsecond : userMapped onePage.k 0x9000 :=
    h .ready (.bytes 0x8FFF 2) (haccs ▸ List.mem_singleton_self _) 1 Nat.one_lt_two
  exact absurd hsecond.2 (by decide)

end AndixOs.Swi
