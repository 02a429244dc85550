/-
# File requests between the secure kernel and the service daemon

`ree_fs.c` writes a request into a `TZ_CTLR_SPACE` and gets the same structure back with the
answer; `tz_service_daemon` reads the request there and makes the POSIX calls.  The two programs
share nothing but the layout of that structure, which is a union: its fields are bytes at offsets.

The operating system under the daemon is any function from the number of the call and the call to
an answer (`Os`).
-/
import AndixOs.Lib.Bytes

namespace AndixOs.Service

open AndixOs

/-! ## 1. `TZ_CTLR_SPACE` -/

def tzFsHashSize : Nat := 32
def tzBlockSize : Nat := 1024

/-- The size of the union: a descriptor, a block and a count. -/
def paramsSize : Nat := 1032

structure TzCtlrSpace where
  op : UInt32
  ret : UInt32
  params : Bytes paramsSize

def tzCtrlReeFsOpen : UInt32 := 0x100
def tzCtrlReeFsRemove : UInt32 := 0x101
def tzCtrlReeFsClose : UInt32 := 0x102
def tzCtrlReeFsRead : UInt32 := 0x103
def tzCtrlReeFsWrite : UInt32 := 0x104
def tzCtrlReeFsFstat : UInt32 := 0x105
def tzCtrlReeFsLseek : UInt32 := 0x106

/-- The offsets of the fields.  `pathname` is the first field of `ree_open` and of `ree_remove`, and
`fd` that of the others. -/
def dirnameAt : Nat := 0
def filenameAt : Nat := 32
def openFlagsAt : Nat := 64
def openModeAt : Nat := 68
def fdAt : Nat := 0
def bufferAt : Nat := 4
def countAt : Nat := 1028
def stSizeAt : Nat := 4
def offsetAt : Nat := 4
def whenceAt : Nat := 8

/-- A 32-bit field. -/
def TzCtlrSpace.word (c : TzCtlrSpace) (p : Nat) : UInt32 := ofLe32 (c.params.slice p 4)

def TzCtlrSpace.bytes (c : TzCtlrSpace) (p n : Nat) : List UInt8 := c.params.slice p n

def TzCtlrSpace.setWord (c : TzCtlrSpace) (p : Nat) (w : UInt32) : TzCtlrSpace :=
  { c with params := c.params.write p (le32 w) }

def TzCtlrSpace.setBytes (c : TzCtlrSpace) (p : Nat) (b : List UInt8) : TzCtlrSpace :=
  { c with params := c.params.write p b }

/-! ## 2. POSIX -/

inductive PosixCall where
  | open (path : List Char) (flags mode : UInt32)
  | mkdir (path : List Char) (mode : UInt32)
  | remove (path : List Char)
  | close (fd : UInt32)
  | read (fd : UInt32) (count : Nat)
  | write (fd : UInt32) (data : List UInt8)
  | fstat (fd : UInt32)
  | lseek (fd offset whence : UInt32)
  deriving DecidableEq

/-- An answer: the result of a call that returns an `int` (or fails, for `read` and `write`), what
`read` could give and how much `write` would take, `st_size`, the offset that `lseek` reaches
(`none` for -1), and whether `errno` is `ENOENT`. -/
structure PosixAnswer where
  ret : Int32
  data : List UInt8
  taken : Nat
  stSize : Nat
  off : Option Nat
  enoent : Bool

/-- The answer to the call with this number. -/
abbrev Os := Nat → PosixCall → PosixAnswer

/-- The calls made so far, oldest first, with their answers. -/
abbrev PosixLog := List (PosixCall × PosixAnswer)

/-- One call. -/
def posix (os : Os) (log : PosixLog) (c : PosixCall) : PosixAnswer × PosixLog :=
  (os log.length c, log ++ [(c, os log.length c)])

/-- `read` returns at most what was asked for; `none` for -1. -/
def PosixAnswer.readAmount (n : Nat) (a : PosixAnswer) : Option Nat :=
  if a.ret < 0 then none else some (a.data.take n).length

/-- `write` takes at most what it was given; `none` for -1. -/
def PosixAnswer.writeAmount (n : Nat) (a : PosixAnswer) : Option Nat :=
  if a.ret < 0 then none else some (min a.taken n)

def oRdwr : UInt32 := 0o2
def oCreat : UInt32 := 0o100
def sIrwxu : UInt32 := 0o700
def seekSet : UInt32 := 0
def seekCur : UInt32 := 1

/-! ## 3. `secure_fs.c` of the daemon -/

def tzRoot : List Char := "/mnt/sdcard/tz_store/".toList
def tzSeperator : List Char := "/".toList
def tzFend : List Char := ".tz".toList

/-- `strncat` of at most `n` characters. -/
def strncat (s t : List Char) (n : Nat) : List Char := s ++ t.take n

def hexDigit (n : Nat) : Char := Char.ofNat (if n < 10 then 48 + n else 55 + n)

/-- `"%02X"`. -/
def hexByte (b : UInt8) : List Char := [hexDigit (b.toNat / 16), hexDigit (b.toNat % 16)]

/-- The loop over the bytes of a hash, with the characters left in the buffer. -/
def catHash (hash : List UInt8) (str : List Char) (sizeLeft : Nat) : List Char × Nat :=
  hash.foldl (fun s b => (strncat s.1 (hexByte b) s.2, s.2 - (hexByte b).length)) (str, sizeLeft)

/-- The size of `filename` and `pathname` in the functions below. -/
def nameSize : Nat := 150

/-- `get_fs_pathstring`. -/
def getFsPathstring (dirname : List UInt8) : List Char :=
  (catHash dirname (strncat [] tzRoot nameSize) (nameSize - tzRoot.length)).1

/-- `get_fs_string`.  The name has `nameSize` characters, so its NUL is behind the buffer; it is taken
to be there still when `open` and `remove` read the name. -/
def getFsString (dirname filename : List UInt8) : List Char :=
  let (str, left) := catHash dirname (strncat [] tzRoot nameSize) (nameSize - tzRoot.length)
  let (str, left) := catHash filename (strncat str tzSeperator left) (left - tzSeperator.length)
  strncat str tzFend left

/-- The name in a request. -/
def requestName (c : TzCtlrSpace) : List Char :=
  getFsString (c.bytes dirnameAt tzFsHashSize) (c.bytes filenameAt tzFsHashSize)

def tzFsRemove (os : Os) (log : PosixLog) (c : TzCtlrSpace) : TzCtlrSpace × PosixLog :=
  let (a, log) := posix os log (.remove (requestName c))
  ({ c with ret := a.ret.toUInt32 }, log)

/-- `tz_fs_open`: a directory that is missing is made, and the file opened again. -/
def tzFsOpen (os : Os) (log : PosixLog) (c : TzCtlrSpace) : TzCtlrSpace × PosixLog :=
  let (a, log) := posix os log (.open (requestName c) (oRdwr ||| oCreat) sIrwxu)
  if a.ret < 0 ∧ a.enoent = true then
    let (d, log) := posix os log (.mkdir (getFsPathstring (c.bytes dirnameAt tzFsHashSize)) sIrwxu)
    if d.ret = 0 then
      let (a, log) := posix os log (.open (requestName c) (oRdwr ||| oCreat) sIrwxu)
      ({ c with ret := a.ret.toUInt32 }, log)
    else ({ c with ret := a.ret.toUInt32 }, log)
  else ({ c with ret := a.ret.toUInt32 }, log)

def tzFsClose (os : Os) (log : PosixLog) (c : TzCtlrSpace) : TzCtlrSpace × PosixLog :=
  let (a, log) := posix os log (.close (c.word fdAt))
  ({ c with ret := a.ret.toUInt32 }, log)

/-- The loop of `tz_fs_read` and `tz_fs_write` with `total` of `count` bytes done.  Where a call
fails the loop ends, and its result is overwritten with the total; where it moves nothing the
result is 0. -/
def transferLoop (os : Os) (req : Nat → TzCtlrSpace → PosixCall)
    (amount : Nat → PosixAnswer → Option Nat)
    (store : Nat → PosixAnswer → TzCtlrSpace → TzCtlrSpace) (count : Nat) :
    Nat → Nat → TzCtlrSpace → PosixLog → TzCtlrSpace × PosixLog
  | 0, total, c, log => ({ c with ret := UInt32.ofNat total }, log)
  | fuel + 1, total, c, log =>
    if total < count then
      let (a, log) := posix os log (req total c)
      match amount (count - total) a with
      | none => ({ c with ret := UInt32.ofNat total }, log)
      | some 0 => ({ c with ret := 0 }, log)
      | some (n + 1) => transferLoop os req amount store count fuel (total + (n + 1))
          (store total a c) log
    else ({ c with ret := UInt32.ofNat total }, log)

/-- `tz_fs_read`.  What is read goes between the descriptor and the count. -/
def tzFsRead (os : Os) (log : PosixLog) (c : TzCtlrSpace) : TzCtlrSpace × PosixLog :=
  let count := (c.word countAt).toNat
  transferLoop os (fun total _ => .read (c.word fdAt) (count - total)) PosixAnswer.readAmount
    (fun total a s => s.setBytes (bufferAt + total) (a.data.take (count - total)))
    count (count + 1) 0 c log

/-- `tz_fs_write`. -/
def tzFsWrite (os : Os) (log : PosixLog) (c : TzCtlrSpace) : TzCtlrSpace × PosixLog :=
  let count := (c.word countAt).toNat
  transferLoop os (fun total s => .write (c.word fdAt) (s.bytes (bufferAt + total) (count - total)))
    PosixAnswer.writeAmount (fun _ _ s => s) count (count + 1) 0 c log

def tzFsFstat (os : Os) (log : PosixLog) (c : TzCtlrSpace) : TzCtlrSpace × PosixLog :=
  let (a, log) := posix os log (.fstat (c.word fdAt))
  ({ c.setWord stSizeAt (UInt32.ofNat a.stSize) with ret := a.ret.toUInt32 }, log)

/-- `tz_fs_lseek`: `REE_SEEK_CUR` and `REE_SEEK_SET` have the numbers of `SEEK_CUR` and `SEEK_SET`,
and there are no others. -/
def tzFsLseek (os : Os) (log : PosixLog) (c : TzCtlrSpace) : TzCtlrSpace × PosixLog :=
  let whence := c.word whenceAt
  if whence = 1 ∨ whence = 0 then
    let (a, log) := posix os log
      (.lseek (c.word fdAt) (c.word offsetAt) (if whence = 1 then seekCur else seekSet))
    ({ c with ret := a.off.elim 0xFFFFFFFF UInt32.ofNat }, log)
  else ({ c with ret := 0xFFFFFFFF }, log)

/-- `dispatch_ctrl`. -/
def dispatchCtrl (os : Os) (log : PosixLog) (c : TzCtlrSpace) : TzCtlrSpace × PosixLog :=
  if c.op = tzCtrlReeFsRemove then tzFsRemove os log c
  else if c.op = tzCtrlReeFsOpen then tzFsOpen os log c
  else if c.op = tzCtrlReeFsClose then tzFsClose os log c
  else if c.op = tzCtrlReeFsRead then tzFsRead os log c
  else if c.op = tzCtrlReeFsWrite then tzFsWrite os log c
  else if c.op = tzCtrlReeFsLseek then tzFsLseek os log c
  else if c.op = tzCtrlReeFsFstat then tzFsFstat os log c
  else (c, log)

/-! ## 4. `ree_fs.c` of the kernel -/

/-- `service_do_request`: the structure goes out, and comes back as the daemon leaves it. -/
def serviceDoRequest (os : Os) (log : PosixLog) (c : TzCtlrSpace) : TzCtlrSpace × PosixLog :=
  dispatchCtrl os log c

/-- What a call hands back to its caller: the result as a word, and the buffer or the size that it
filled in. -/
structure ReeResult where
  ret : UInt32
  data : List UInt8
  stSize : Option UInt32

def reeRemove (os : Os) (log : PosixLog) (ctrl : TzCtlrSpace) (storename filename : Bytes 32) :
    ReeResult × PosixLog :=
  let ctrl := (({ ctrl with op := tzCtrlReeFsRemove, ret := 0 }).setBytes dirnameAt
    storename.toList).setBytes filenameAt filename.toList
  let (ctrl, log) := serviceDoRequest os log ctrl
  (⟨if ctrl.ret ≠ 0 then ctrl.ret else 0, [], none⟩, log)

/-- `ree_open`.  The flags field is assigned twice, and the mode field not at all. -/
def reeOpen (os : Os) (log : PosixLog) (ctrl : TzCtlrSpace) (storename filename : Bytes 32)
    (flags mode : UInt32) : ReeResult × PosixLog :=
  let ctrl := (({ ctrl with op := tzCtrlReeFsOpen, ret := 0 }).setBytes dirnameAt
    storename.toList).setBytes filenameAt filename.toList
  let ctrl := (ctrl.setWord openFlagsAt flags).setWord openFlagsAt mode
  let (ctrl, log) := serviceDoRequest os log ctrl
  (⟨ctrl.ret, [], none⟩, log)

def reeClose (os : Os) (log : PosixLog) (ctrl : TzCtlrSpace) (fd : UInt32) :
    ReeResult × PosixLog :=
  let ctrl := ({ ctrl with op := tzCtrlReeFsClose, ret := 0 }).setWord fdAt fd
  let (ctrl, log) := serviceDoRequest os log ctrl
  (⟨ctrl.ret, [], none⟩, log)

/-- The request of one round of `ree_read`. -/
def readRequest (ctrl : TzCtlrSpace) (fd : UInt32) (currentRead : Nat) : TzCtlrSpace :=
  (({ ctrl with op := tzCtrlReeFsRead, ret := 0 }).setWord fdAt fd).setWord countAt
    (UInt32.ofNat currentRead)

/-- The loop of `ree_read` with `buf` read and `left` to go. -/
def reeReadLoop (os : Os) (fd : UInt32) :
    Nat → TzCtlrSpace → Nat → List UInt8 → PosixLog → ReeResult × PosixLog
  | 0, _, _, buf, log => (⟨UInt32.ofNat buf.length, buf, none⟩, log)
  | fuel + 1, ctrl, left, buf, log =>
    if left > 0 then
      let currentRead := if left > tzBlockSize then tzBlockSize else left
      let (ctrl, log) := serviceDoRequest os log (readRequest ctrl fd currentRead)
      if ctrl.ret.toInt32 < 0 then (⟨ctrl.ret, buf, none⟩, log)
      else if ctrl.ret = 0 then (⟨UInt32.ofNat buf.length, buf, none⟩, log)
      else if ctrl.ret = UInt32.ofNat currentRead then
        reeReadLoop os fd fuel ctrl (left - currentRead)
          (buf ++ ctrl.bytes bufferAt currentRead) log
      else (⟨0xFFFFFFFF, buf, none⟩, log)
    else (⟨UInt32.ofNat buf.length, buf, none⟩, log)

def reeRead (os : Os) (log : PosixLog) (ctrl : TzCtlrSpace) (fd count : UInt32) :
    ReeResult × PosixLog :=
  reeReadLoop os fd (count.toNat + 1) ctrl count.toNat [] log

/-- The request of one round of `ree_write`. -/
def writeRequest (ctrl : TzCtlrSpace) (fd : UInt32) (data : List UInt8) : TzCtlrSpace :=
  ((({ ctrl with op := tzCtrlReeFsWrite, ret := 0 }).setWord fdAt fd).setWord countAt
    (UInt32.ofNat data.length)).setBytes bufferAt data

/-- The loop of `ree_write` with `total` bytes written and `rest` to go. -/
def reeWriteLoop (os : Os) (fd : UInt32) :
    Nat → TzCtlrSpace → Nat → List UInt8 → PosixLog → ReeResult × PosixLog
  | 0, _, total, _, log => (⟨UInt32.ofNat total, [], none⟩, log)
  | fuel + 1, ctrl, total, rest, log =>
    if rest.length > 0 then
      let current := rest.take tzBlockSize
      let (ctrl, log) := serviceDoRequest os log (writeRequest ctrl fd current)
      if ctrl.ret.toInt32 ≤ 0 then (⟨UInt32.ofNat total, [], none⟩, log)
      else if ctrl.ret ≠ UInt32.ofNat current.length then (⟨UInt32.ofNat total, [], none⟩, log)
      else reeWriteLoop os fd fuel ctrl (total + current.length) (rest.drop tzBlockSize) log
    else (⟨UInt32.ofNat total, [], none⟩, log)

def reeWrite (os : Os) (log : PosixLog) (ctrl : TzCtlrSpace) (fd count : UInt32)
    (buf : Bytes count.toNat) : ReeResult × PosixLog :=
  reeWriteLoop os fd (count.toNat + 1) ctrl 0 buf.toList log

def reeFstat (os : Os) (log : PosixLog) (ctrl : TzCtlrSpace) (fd : UInt32) :
    ReeResult × PosixLog :=
  let ctrl := ({ ctrl with op := tzCtrlReeFsFstat, ret := 0 }).setWord fdAt fd
  let (ctrl, log) := serviceDoRequest os log ctrl
  (⟨ctrl.ret, [], if ctrl.ret = 0 then some (ctrl.word stSizeAt) else none⟩, log)

def reeLseek (os : Os) (log : PosixLog) (ctrl : TzCtlrSpace) (fd offset whence : UInt32) :
    ReeResult × PosixLog :=
  let ctrl := ((({ ctrl with op := tzCtrlReeFsLseek, ret := 0 }).setWord fdAt fd).setWord offsetAt
    offset).setWord whenceAt whence
  let (ctrl, log) := serviceDoRequest os log ctrl
  (⟨if ctrl.ret = 0xFFFFFFFF then 0xFFFFFFFF else 0, [], none⟩, log)

/-- A call of one of the seven operations. -/
inductive ReeCall where
  | remove (storename filename : Bytes 32)
  | open (storename filename : Bytes 32) (flags mode : UInt32)
  | close (fd : UInt32)
  | read (fd count : UInt32)
  | write (fd count : UInt32) (buf : Bytes count.toNat)
  | fstat (fd : UInt32)
  | lseek (fd offset whence : UInt32)

/-- The call, with what the stack holds where its `ctrl` lies. -/
def reeCall (os : Os) (ctrl : TzCtlrSpace) : ReeCall → ReeResult × PosixLog
  | .remove storename filename => reeRemove os [] ctrl storename filename
  | .open storename filename flags mode => reeOpen os [] ctrl storename filename flags mode
  | .close fd => reeClose os [] ctrl fd
  | .read fd count => reeRead os [] ctrl fd count
  | .write fd count buf => reeWrite os [] ctrl fd count buf
  | .fstat fd => reeFstat os [] ctrl fd
  | .lseek fd offset whence => reeLseek os [] ctrl fd offset whence

end AndixOs.Service
