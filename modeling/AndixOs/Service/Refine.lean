/-
# What a file request does in the normal world

`Wire.lean` has the two programs.  This file says what a call of `ree_fs.c` stands for, the POSIX
call with the same arguments and its result (`Performs`), and proves exactly when the two programs
together do that (`ree_performs_iff`).

* **Read and write.**  A transfer is a run of POSIX calls, each from where the last one stopped
  (`transfer`).  The kernel and the daemon cut it into blocks, and their calls are those of the
  transfer; but how it ended within a block is lost on the way back (`readResult`, `writeResult`).
* **Open.**  The daemon looks at neither the flags nor the mode of the request.
-/
import AndixOs.Service.Wire

namespace AndixOs.Service

open AndixOs

/-! ## 1. The name of a file -/

/-- The hexadecimal digits of a hash. -/
def hexName (hash : List UInt8) : List Char := hash.flatMap hexByte

/-- Where a file lies in the store. -/
def storePath (storename filename : Bytes 32) : List Char :=
  tzRoot ++ hexName storename.toList ++ tzSeperator ++ hexName filename.toList

theorem hexByte_length (b : UInt8) : (hexByte b).length = 2 := rfl

theorem catHash_eq (hash : List UInt8) (str : List Char) (left : Nat)
    (h : 2 * hash.length ≤ left) :
    catHash hash str left = (str ++ hexName hash, left - 2 * hash.length) := by
  induction hash generalizing str left with
  | nil => simp [catHash, hexName]
  | cons b hash ih =>
    rw [List.length_cons] at h
    have htake : (hexByte b).take left = hexByte b :=
      List.take_of_length_le (by rw [hexByte_length]; omega)
    have hstep : catHash (b :: hash) str left = catHash hash (str ++ hexByte b) (left - 2) := by
      rw [catHash, List.foldl_cons, strncat, htake]
      rfl
    have hleft : left - 2 - 2 * hash.length = left - 2 * (hash.length + 1) := by omega
    rw [hstep, ih _ _ (by omega), List.length_cons, hleft]
    simp only [hexName, List.flatMap_cons, List.append_assoc]

/-- The root, the two names and the separator fill the buffer, so the ending `.tz` is left out. -/
theorem getFsString_eq (storename filename : Bytes 32) :
    getFsString storename.toList filename.toList = storePath storename filename := by
  have hroot : tzRoot.length = 21 := by decide
  have hsep : tzSeperator.length = 1 := by decide
  have hfirst : strncat [] tzRoot nameSize = tzRoot := by decide
  have hmiddle : strncat (tzRoot ++ hexName storename.toList) tzSeperator (nameSize - 21 - 2 * 32) =
      tzRoot ++ hexName storename.toList ++ tzSeperator := rfl
  have hnone : nameSize - 21 - 2 * 32 - 1 - 2 * 32 = 0 := rfl
  unfold getFsString
  rw [hfirst, catHash_eq _ _ _ (by rw [hroot, List.Vector.toList_length]; decide)]
  simp only [hroot, hsep, List.Vector.toList_length]
  rw [hmiddle, catHash_eq _ _ _ (by rw [List.Vector.toList_length]; decide)]
  simp only [List.Vector.toList_length, strncat, storePath]
  rw [hnone, List.take_zero, List.append_nil]

theorem hexByte_injective : Function.Injective hexByte := by
  intro a b h
  have hdigit : ∀ i < 16, ∀ j < 16, hexDigit i = hexDigit j → i = j := by decide
  obtain ⟨hhigh, hlow⟩ : hexDigit (a.toNat / 16) = hexDigit (b.toNat / 16) ∧
      hexDigit (a.toNat % 16) = hexDigit (b.toNat % 16) := by
    simpa [hexByte] using h
  have ha := a.toNat_lt
  have hb := b.toNat_lt
  have h1 := hdigit _ (by omega) _ (by omega) hhigh
  have h2 := hdigit _ (by omega) _ (by omega) hlow
  exact UInt8.toNat_inj.mp (by omega)

theorem hexName_length (hash : List UInt8) : (hexName hash).length = 2 * hash.length := by
  induction hash with
  | nil => rfl
  | cons b hash ih =>
    rw [hexName, List.flatMap_cons, List.length_append, ← hexName, ih, List.length_cons,
      hexByte_length]
    omega

theorem hexName_injective : Function.Injective hexName := by
  intro s t h
  induction s generalizing t with
  | nil =>
    cases t with
    | nil => rfl
    | cons b t => simp [hexName, hexByte] at h
  | cons a s ih =>
    cases t with
    | nil => simp [hexName, hexByte] at h
    | cons b t =>
      simp only [hexName, List.flatMap_cons] at h
      obtain ⟨hab, hst⟩ := List.append_inj h rfl
      rw [hexByte_injective hab, ih hst]

/-- Different names are different files. -/
theorem storePath_injective {s t f g : Bytes 32} (h : storePath s f = storePath t g) :
    s = t ∧ f = g := by
  simp only [storePath, List.append_assoc] at h
  obtain ⟨hst, hfg⟩ := List.append_inj (List.append_cancel_left h) (by
    rw [hexName_length, hexName_length, List.Vector.toList_length, List.Vector.toList_length])
  exact ⟨List.Vector.eq _ _ (hexName_injective hst),
    List.Vector.eq _ _ (hexName_injective (List.append_cancel_left hfg))⟩

/-! ## 2. Transfers -/

/-- How a transfer ends: all is moved, a call moves nothing, or a call fails. -/
inductive TransferEnd where
  | full | eof | failed
  deriving DecidableEq

structure Transfer where
  total : Nat
  how : TransferEnd
  log : PosixLog

/-- The calls that move `left` bytes after the first `total`, none across the end of a block. -/
def transfer (os : Os) (req : Nat → Nat → PosixCall) (amount : Nat → PosixAnswer → Option Nat)
    (total left : Nat) (log : PosixLog) : Transfer :=
  if left = 0 then ⟨total, .full, log⟩
  else
    let k := min left (tzBlockSize - total % tzBlockSize)
    let (a, log) := posix os log (req total k)
    match amount k a with
    | none => ⟨total, .failed, log⟩
    | some 0 => ⟨total, .eof, log⟩
    | some (n + 1) => transfer os req amount (total + (n + 1)) (left - (n + 1)) log
termination_by left

/-- The result of a transfer: what was moved, or -1 where the first call fails. -/
def Transfer.result (t : Transfer) : UInt32 :=
  if t.how = .failed ∧ t.total = 0 then 0xFFFFFFFF else UInt32.ofNat t.total

/-- What the calls of a log have read. -/
def readBytes (log : PosixLog) : List UInt8 :=
  log.flatMap fun e => match e.1 with
    | .read _ k => if e.2.ret < 0 then [] else e.2.data.take k
    | _ => []

section

variable {os : Os} {req : Nat → Nat → PosixCall} {amount : Nat → PosixAnswer → Option Nat}

theorem transfer_zero (total : Nat) (log : PosixLog) :
    transfer os req amount total 0 log = ⟨total, .full, log⟩ := by
  rw [transfer, if_pos rfl]

/-- One call, in a block that has `k` bytes left. -/
theorem transfer_step {total left k : Nat} (log : PosixLog) (hleft : left ≠ 0)
    (hk : k = min left (tzBlockSize - total % tzBlockSize)) :
    transfer os req amount total left log =
      match amount k (os log.length (req total k)) with
      | none => ⟨total, .failed, log ++ [(req total k, os log.length (req total k))]⟩
      | some 0 => ⟨total, .eof, log ++ [(req total k, os log.length (req total k))]⟩
      | some (n + 1) => transfer os req amount (total + (n + 1)) (left - (n + 1))
          (log ++ [(req total k, os log.length (req total k))]) := by
  rw [transfer, if_neg hleft, ← hk]
  rfl

variable (os req) in
/-- A transfer moves all or less. -/
theorem transfer_total (hamount : ∀ k a m, amount k a = some m → m ≤ k) (total left : Nat)
    (log : PosixLog) :
    let t := transfer os req amount total left log
    total ≤ t.total ∧ (t.how = .full → t.total = total + left) ∧
      (t.how ≠ .full → t.total < total + left) := by
  induction left using Nat.strong_induction_on generalizing total log with
  | _ left ih =>
    by_cases hleft : left = 0
    · rw [hleft, transfer_zero]
      exact ⟨Nat.le_refl _, fun _ => rfl, fun h => absurd rfl h⟩
    · rw [transfer_step log hleft rfl]
      split
      · exact ⟨Nat.le_refl _, nofun, fun _ => by simp only; omega⟩
      · exact ⟨Nat.le_refl _, nofun, fun _ => by simp only; omega⟩
      · rename_i n hn
        have hle := (hamount _ _ _ hn).trans (Nat.min_le_left _ _)
        obtain ⟨h1, h2, h3⟩ := ih (left - (n + 1)) (by omega) (total + (n + 1)) _
        exact ⟨by omega, fun h => by rw [h2 h]; omega, fun h => (h3 h).trans_le (by omega)⟩

/-! ## 3. A block in the daemon

`g` bytes were moved before the block, which is the next `count` of the `left` to go.  `P` says
what holds of the structure and the calls with `x` bytes of the block moved. -/

variable {req' : Nat → TzCtlrSpace → PosixCall} {store : Nat → PosixAnswer → TzCtlrSpace → TzCtlrSpace}
  {P : Nat → Bytes paramsSize → PosixLog → Prop} {g left count : Nat}

/-- What the loop leaves: the block is done and the transfer goes on behind it, or it ended after
`y` bytes, and the result says 0 where a call moved nothing and `y` where one failed. -/
def BlockEnd (os : Os) (req : Nat → Nat → PosixCall) (amount : Nat → PosixAnswer → Option Nat)
    (P : Nat → Bytes paramsSize → PosixLog → Prop) (g left count : Nat) (t : Transfer)
    (r : TzCtlrSpace × PosixLog) : Prop :=
  (P count r.1.params r.2 ∧ r.1.ret = UInt32.ofNat count ∧
      t = transfer os req amount (g + count) (left - count) r.2) ∨
    ∃ y < count, P y r.1.params r.2 ∧
      ((t = ⟨g + y, .eof, r.2⟩ ∧ r.1.ret = 0) ∨ (t = ⟨g + y, .failed, r.2⟩ ∧ r.1.ret = UInt32.ofNat y))

theorem transferLoop_blockEnd (hcount : count = min left tzBlockSize) (hg : g % tzBlockSize = 0)
    (hamount : ∀ k a m, amount k a = some m → m ≤ k)
    (hreq : ∀ x (c : TzCtlrSpace) log, P x c.params log → x < count → req' x c = req (g + x) (count - x))
    (hstop : ∀ x (c : TzCtlrSpace) log a, P x c.params log → amount (count - x) a = none ∨
      amount (count - x) a = some 0 → P x c.params (log ++ [(req (g + x) (count - x), a)]))
    (hstore : ∀ x (c : TzCtlrSpace) log a n, P x c.params log → x + n ≤ count → amount (count - x) a = some n →
      P (x + n) (store x a c).params (log ++ [(req (g + x) (count - x), a)]))
    (fuel x : Nat) (c : TzCtlrSpace) (log : PosixLog) (hP : P x c.params log) (hx : x ≤ count)
    (hfuel : count - x < fuel) :
    BlockEnd os req amount P g left count (transfer os req amount (g + x) (left - x) log)
      (transferLoop os req' amount store count fuel x c log) := by
  have hle : count ≤ left := hcount ▸ Nat.min_le_left _ _
  have hblock : count ≤ tzBlockSize := hcount ▸ Nat.min_le_right _ _
  induction fuel generalizing x c log with
  | zero => omega
  | succ fuel ih =>
    by_cases hlt : x < count
    · have hk : count - x = min (left - x) (tzBlockSize - (g + x) % tzBlockSize) := by
        simp only [tzBlockSize] at hcount hg hblock ⊢
        omega
      rw [transferLoop, if_pos hlt, transfer_step log (by omega) hk, hreq x c log hP hlt]
      simp only [posix]
      cases hmove : amount (count - x) (os log.length (req (g + x) (count - x))) with
      | none => exact Or.inr ⟨x, hlt, hstop x c log _ hP (Or.inl hmove), Or.inr ⟨rfl, rfl⟩⟩
      | some n =>
        cases n with
        | zero => exact Or.inr ⟨x, hlt, hstop x c log _ hP (Or.inr hmove), Or.inl ⟨rfl, rfl⟩⟩
        | succ n =>
          have hn := hamount _ _ _ hmove
          have hnext := ih (x + (n + 1)) (store x (os log.length (req (g + x) (count - x))) c) _
            (hstore x c log _ (n + 1) hP (by omega) hmove) (by omega) (by omega)
          rw [← Nat.add_assoc g, ← Nat.sub_sub] at hnext
          exact hnext
    · obtain rfl : x = count := by omega
      rw [transferLoop, if_neg hlt]
      exact Or.inl ⟨hP, rfl, rfl⟩

/-! ## 4. The two requests -/

theorem TzCtlrSpace.word_setWord (c : TzCtlrSpace) {p : Nat} (w : UInt32)
    (h : p + 4 ≤ paramsSize) : (c.setWord p w).word p = w := by
  have hslice := Bytes.slice_write_self (d := c.params) (p := p) (b := le32 w) h
  rw [le32_length] at hslice
  exact (congrArg ofLe32 hslice).trans (List.append_nil (le32 w) ▸ ofLe32_le32 w [])

theorem TzCtlrSpace.word_setWord_other (c : TzCtlrSpace) {p q : Nat} (w : UInt32)
    (h : q + 4 ≤ p ∨ p + 4 ≤ q) : (c.setWord p w).word q = c.word q :=
  congrArg ofLe32 (Bytes.slice_write_other h)

theorem TzCtlrSpace.word_setBytes_other (c : TzCtlrSpace) {p q : Nat} (b : List UInt8)
    (h : q + 4 ≤ p ∨ p + b.length ≤ q) : (c.setBytes p b).word q = c.word q :=
  congrArg ofLe32 (Bytes.slice_write_other h)

theorem readRequest_fd (ctrl : TzCtlrSpace) (fd : UInt32) (k : Nat) :
    (readRequest ctrl fd k).word fdAt = fd := by
  rw [readRequest, TzCtlrSpace.word_setWord_other _ _ (by decide),
    TzCtlrSpace.word_setWord _ _ (by decide)]

theorem readRequest_count (ctrl : TzCtlrSpace) (fd : UInt32) {k : Nat} (hk : k ≤ tzBlockSize) :
    ((readRequest ctrl fd k).word countAt).toNat = k := by
  simp only [tzBlockSize] at hk
  rw [readRequest, TzCtlrSpace.word_setWord _ _ (by decide)]
  exact UInt32.toNat_ofNat_of_lt' (by rw [UInt32.size]; omega)

theorem writeRequest_fd (ctrl : TzCtlrSpace) (fd : UInt32) (data : List UInt8) :
    (writeRequest ctrl fd data).word fdAt = fd := by
  rw [writeRequest, TzCtlrSpace.word_setBytes_other _ _ (Or.inl (by decide)),
    TzCtlrSpace.word_setWord_other _ _ (by decide), TzCtlrSpace.word_setWord _ _ (by decide)]

theorem writeRequest_count (ctrl : TzCtlrSpace) (fd : UInt32) {data : List UInt8}
    (hdata : data.length ≤ tzBlockSize) :
    ((writeRequest ctrl fd data).word countAt).toNat = data.length := by
  simp only [tzBlockSize] at hdata
  rw [writeRequest, TzCtlrSpace.word_setBytes_other _ _
      (Or.inr (by simp only [bufferAt, countAt]; omega)),
    TzCtlrSpace.word_setWord _ _ (by decide)]
  exact UInt32.toNat_ofNat_of_lt' (by rw [UInt32.size]; omega)

theorem writeRequest_data (ctrl : TzCtlrSpace) (fd : UInt32) {data : List UInt8}
    (hdata : data.length ≤ tzBlockSize) :
    (writeRequest ctrl fd data).params.slice bufferAt data.length = data := by
  simp only [tzBlockSize] at hdata
  exact Bytes.slice_write_self (by simp only [bufferAt, paramsSize]; omega)

theorem dispatchCtrl_read (log : PosixLog) {c : TzCtlrSpace} (h : c.op = tzCtrlReeFsRead) :
    dispatchCtrl os log c = tzFsRead os log c := by
  unfold dispatchCtrl
  rw [h]
  rfl

theorem dispatchCtrl_write (log : PosixLog) {c : TzCtlrSpace} (h : c.op = tzCtrlReeFsWrite) :
    dispatchCtrl os log c = tzFsWrite os log c := by
  unfold dispatchCtrl
  rw [h]
  rfl

theorem readAmount_le (k : Nat) (a : PosixAnswer) (m : Nat) (h : a.readAmount k = some m) :
    m ≤ k := by
  unfold PosixAnswer.readAmount at h
  split at h
  · exact nomatch h
  · rw [← Option.some.inj h]
    exact List.length_take_le _ _

theorem writeAmount_le (k : Nat) (a : PosixAnswer) (m : Nat) (h : a.writeAmount k = some m) :
    m ≤ k := by
  unfold PosixAnswer.writeAmount at h
  split at h
  · exact nomatch h
  · rw [← Option.some.inj h]
    exact Nat.min_le_right _ _

theorem readBytes_append (log : PosixLog) (fd : UInt32) (k : Nat) (a : PosixAnswer) :
    readBytes (log ++ [(.read fd k, a)]) =
      readBytes log ++ if a.ret < 0 then [] else a.data.take k := by
  simp [readBytes]

variable (os) in
/-- A round of `ree_read`. -/
theorem read_blockEnd (ctrl : TzCtlrSpace) (fd : UInt32) (hcount : count = min left tzBlockSize)
    (hg : g % tzBlockSize = 0) (log : PosixLog) :
    BlockEnd os (fun _ k => .read fd k) PosixAnswer.readAmount
      (fun x p l => readBytes l = readBytes log ++ p.slice bufferAt x) g left count
      (transfer os (fun _ k => .read fd k) PosixAnswer.readAmount g left log)
      (serviceDoRequest os log (readRequest ctrl fd count)) := by
  have hblock : count ≤ tzBlockSize := hcount ▸ Nat.min_le_right _ _
  rw [serviceDoRequest, dispatchCtrl_read log rfl, tzFsRead, readRequest_count ctrl fd hblock,
    readRequest_fd]
  refine transferLoop_blockEnd hcount hg readAmount_le (fun _ _ _ _ _ => rfl) ?_ ?_ _ 0 _ log
    (by simp [Bytes.slice]) (Nat.zero_le _) (Nat.lt_succ_self _)
  · intro x c l a hP hstop
    rw [readBytes_append, hP]
    unfold PosixAnswer.readAmount at hstop
    split at hstop
    · rename_i hret
      rw [if_pos hret, List.append_nil]
    · rename_i hret
      have hnil : a.data.take (count - x) = [] := by simpa using hstop
      rw [if_neg hret, hnil, List.append_nil]
  · intro x c l a n hP hn hmove
    rw [readBytes_append, hP, List.append_assoc]
    unfold PosixAnswer.readAmount at hmove
    split at hmove
    · exact nomatch hmove
    · rename_i hret
      simp only [tzBlockSize] at hblock
      rw [if_neg hret, ← Option.some.inj hmove]
      have hfit : bufferAt + x + (a.data.take (count - x)).length ≤ paramsSize := by
        rw [Option.some.inj hmove]
        simp only [bufferAt, paramsSize]
        omega
      rw [← Bytes.slice_write_append hfit]
      rfl

variable (os) in
/-- A round of `ree_write`. -/
theorem write_blockEnd (ctrl : TzCtlrSpace) (fd : UInt32) (buf : List UInt8)
    (hleft : g + left = buf.length) (hg : g % tzBlockSize = 0) (log : PosixLog) :
    let data := (buf.drop g).take tzBlockSize
    BlockEnd os (fun t k => .write fd ((buf.drop t).take k)) PosixAnswer.writeAmount
      (fun _ p _ => p = (writeRequest ctrl fd data).params) g left data.length
      (transfer os (fun t k => .write fd ((buf.drop t).take k)) PosixAnswer.writeAmount g left log)
      (serviceDoRequest os log (writeRequest ctrl fd data)) := by
  intro data
  have hcount : data.length = min left tzBlockSize := by
    rw [List.length_take, List.length_drop, Nat.min_comm]
    omega
  have hblock : data.length ≤ tzBlockSize := hcount ▸ Nat.min_le_right _ _
  rw [serviceDoRequest, dispatchCtrl_write log rfl, tzFsWrite, writeRequest_count ctrl fd hblock,
    writeRequest_fd]
  refine transferLoop_blockEnd hcount hg writeAmount_le ?_ (fun _ _ _ _ hP _ => hP)
    (fun _ _ _ _ _ hP _ _ => hP) _ 0 _ log rfl (Nat.zero_le _) (Nat.lt_succ_self _)
  intro x c l hP hx
  have hbytes : c.bytes (bufferAt + x) (data.length - x) = data.drop x := by
    rw [TzCtlrSpace.bytes, hP, Bytes.slice_drop_take, writeRequest_data ctrl fd hblock]
  have hsame : (buf.drop (g + x)).take (tzBlockSize - x) =
      (buf.drop (g + x)).take (data.length - x) := by
    rw [List.take_eq_take_iff, List.length_drop, hcount]
    omega
  rw [hbytes, List.drop_take, List.drop_drop, hsame]

/-! ## 5. The loops of the kernel -/

/-- The bytes of a transfer without those of a block that it leaves in the middle. -/
def Transfer.whole (t : Transfer) : Nat :=
  if t.how = .full then t.total else t.total - t.total % tzBlockSize

/-- What `ree_read` returns: a block that ends early does not count, and one in which a call fails
makes it fail. -/
def readResult (t : Transfer) : UInt32 :=
  if t.how = .failed ∧ t.total % tzBlockSize ≠ 0 then 0xFFFFFFFF else UInt32.ofNat t.whole

/-- What `ree_write` returns. -/
def writeResult (t : Transfer) : UInt32 := UInt32.ofNat t.whole

theorem toInt_toInt32_ofNat {k : Nat} (h : k ≤ tzBlockSize) :
    (UInt32.ofNat k).toInt32.toInt = k := by
  simp only [tzBlockSize] at h
  rw [show (UInt32.ofNat k).toInt32 = Int32.ofNat k by simp, Int32.toInt_ofNat_of_lt (by omega)]

theorem ofNat_inj {a b : Nat} (ha : a < 4294967296) (hb : b < 4294967296) :
    UInt32.ofNat a = UInt32.ofNat b ↔ a = b := by
  refine ⟨fun h => ?_, fun h => by rw [h]⟩
  rw [← UInt32.toNat_inj, UInt32.toNat_ofNat_of_lt' ha, UInt32.toNat_ofNat_of_lt' hb] at h
  exact h

theorem blockSize_eq (left : Nat) :
    (if left > tzBlockSize then tzBlockSize else left) = min left tzBlockSize := by
  rw [Nat.min_def]
  split <;> split <;> omega

/-- What the rounds make of the number of bytes that a block has moved. -/
theorem blockRet {y k : Nat} (hk : k ≤ tzBlockSize) (hy : y ≤ k) :
    ¬ (UInt32.ofNat y).toInt32 < 0 ∧ ((UInt32.ofNat y).toInt32 ≤ 0 ↔ y = 0) ∧
      (UInt32.ofNat y = 0 ↔ y = 0) ∧ (UInt32.ofNat y = UInt32.ofNat k ↔ y = k) := by
  have hint := toInt_toInt32_ofNat (hy.trans hk)
  simp only [tzBlockSize] at hk
  refine ⟨?_, ?_, ofNat_inj (b := 0) (by omega) (by decide), ofNat_inj (by omega) (by omega)⟩
  · rw [Int32.lt_iff_toInt_lt, hint]
    exact Int.not_lt.mpr (Int.natCast_nonneg y)
  · rw [Int32.le_iff_toInt_le, hint]
    exact ⟨fun h => by simpa using h, fun h => by simp [h]⟩

variable (os) in
/-- The rounds of `ree_read` make the calls of the transfer. -/
theorem reeReadLoop_spec (fd : UInt32) (fuel : Nat) (ctrl : TzCtlrSpace) (left : Nat)
    (log : PosixLog) (hg : left ≠ 0 → (readBytes log).length % tzBlockSize = 0)
    (hsize : (readBytes log).length + left < 4294967296) (hfuel : left < fuel) :
    let t := transfer os (fun _ k => .read fd k) PosixAnswer.readAmount (readBytes log).length left log
    let r := reeReadLoop os fd fuel ctrl left (readBytes log) log
    r.2 = t.log ∧ r.1.ret = readResult t ∧
      (t.how = .full ∨ t.total % tzBlockSize = 0 → r.1.data = readBytes t.log) := by
  induction fuel generalizing ctrl left log with
  | zero => omega
  | succ fuel ih =>
    by_cases hleft : left = 0
    · rw [hleft, transfer_zero, reeReadLoop, if_neg (by decide)]
      exact ⟨rfl, rfl, fun _ => rfl⟩
    have hround := read_blockEnd os ctrl fd (blockSize_eq left) (hg hleft) log
    rw [reeReadLoop, if_pos (Nat.pos_of_ne_zero hleft)]
    simp only
    rw [blockSize_eq] at hround ⊢
    have hk : min left tzBlockSize ≤ tzBlockSize := Nat.min_le_right _ _
    have hk0 : 0 < min left tzBlockSize := Nat.lt_min.mpr ⟨Nat.pos_of_ne_zero hleft, by decide⟩
    generalize serviceDoRequest os log (readRequest ctrl fd (min left tzBlockSize)) = r at hround ⊢
    obtain ⟨hP, hret, ht⟩ | ⟨y, hy, hP, ⟨ht, hret⟩ | ⟨ht, hret⟩⟩ := hround
    · have hlen : (readBytes r.2).length = (readBytes log).length + min left tzBlockSize := by
        rw [hP, List.length_append, Bytes.slice, List.length_take, List.length_drop,
          List.Vector.toList_length]
        simp only [bufferAt, paramsSize, tzBlockSize]
        omega
      obtain ⟨hneg, -, hzero, -⟩ := blockRet hk (Nat.le_refl _)
      rw [ht]
      simp only [hret, if_neg hneg, if_neg (mt hzero.mp hk0.ne'), if_true, TzCtlrSpace.bytes]
      rw [← hP, ← hlen]
      refine ih _ _ _ (fun hrest => ?_) (by omega) (by omega)
      have haligned := hg hleft
      simp only [tzBlockSize] at haligned hlen hrest ⊢
      omega
    all_goals
      have haligned := hg hleft
      have hy1024 : y < tzBlockSize := hy.trans_le hk
      have hlast : ((readBytes log).length + y) % tzBlockSize = y := by
        simp only [tzBlockSize] at haligned hy1024 ⊢
        omega
      have hdata : y = 0 → readBytes log = readBytes r.2 := by
        intro hy0
        rw [hP, hy0, Bytes.slice, List.take_zero, List.append_nil]
    · rw [ht, hret, if_neg (by decide), if_pos rfl]
      refine ⟨rfl, ?_, fun h => hdata (by simpa [hlast] using h)⟩
      simp [readResult, Transfer.whole, hlast]
    · obtain ⟨hneg, -, hzero, hfull⟩ := blockRet hk hy.le
      rw [ht, hret, if_neg hneg]
      by_cases hy0 : y = 0
      · rw [if_pos (hzero.mpr hy0)]
        refine ⟨rfl, ?_, fun _ => hdata hy0⟩
        simp [readResult, Transfer.whole, hy0, haligned]
      · rw [if_neg (mt hzero.mp hy0), if_neg (mt hfull.mp hy.ne)]
        refine ⟨rfl, ?_, fun h => absurd (by simpa [hlast] using h) hy0⟩
        simp [readResult, hlast, hy0]

variable (os) in
/-- The rounds of `ree_write` make the calls of the transfer. -/
theorem reeWriteLoop_spec (fd : UInt32) (buf : List UInt8) (fuel : Nat) (ctrl : TzCtlrSpace)
    (total : Nat) (log : PosixLog) (htotal : total ≤ buf.length)
    (hg : total ≠ buf.length → total % tzBlockSize = 0) (hsize : buf.length < 4294967296)
    (hfuel : buf.length - total < fuel) :
    let t := transfer os (fun t k => .write fd ((buf.drop t).take k)) PosixAnswer.writeAmount total
      (buf.length - total) log
    let r := reeWriteLoop os fd fuel ctrl total (buf.drop total) log
    r.2 = t.log ∧ r.1.ret = writeResult t := by
  induction fuel generalizing ctrl total log with
  | zero => omega
  | succ fuel ih =>
    by_cases hleft : total = buf.length
    · rw [hleft, Nat.sub_self, transfer_zero, reeWriteLoop, List.drop_length, if_neg (by decide)]
      exact ⟨rfl, rfl⟩
    have hround := write_blockEnd os ctrl fd buf (show total + (buf.length - total) = _ by omega)
      (hg hleft) log
    rw [reeWriteLoop, if_pos (by rw [List.length_drop]; omega)]
    simp only at hround ⊢
    have hk : ((buf.drop total).take tzBlockSize).length ≤ tzBlockSize := List.length_take_le _ _
    have hlen : ((buf.drop total).take tzBlockSize).length = min tzBlockSize (buf.length - total) := by
      rw [List.length_take, List.length_drop]
    generalize serviceDoRequest os log (writeRequest ctrl fd _) = r at hround ⊢
    generalize hcount : ((buf.drop total).take tzBlockSize).length = count at hk hlen hround ⊢
    have hk0 : count ≠ 0 := by
      simp only [tzBlockSize] at hlen
      omega
    obtain ⟨-, hret, ht⟩ | ⟨y, hy, -, ⟨ht, hret⟩ | ⟨ht, hret⟩⟩ := hround
    · obtain ⟨-, hpos, -, -⟩ := blockRet hk (Nat.le_refl _)
      have hdrop : buf.drop (total + tzBlockSize) = buf.drop (total + count) := by
        rw [List.drop_eq_drop_iff, hlen]
        omega
      rw [ht, hret, if_neg (mt hpos.mp hk0), if_neg (not_not_intro rfl), List.drop_drop, hdrop,
        Nat.sub_sub]
      refine ih _ _ _ (by omega) (fun hrest => ?_) (by omega)
      have haligned := hg hleft
      simp only [tzBlockSize] at haligned hlen ⊢
      omega
    all_goals
      have haligned := hg hleft
      have hlast : (total + y) % tzBlockSize = y := by
        simp only [tzBlockSize] at haligned hk ⊢
        omega
      have hwhole (e : TransferEnd) (he : e ≠ .full) :
          writeResult ⟨total + y, e, r.2⟩ = UInt32.ofNat total := by
        simp [writeResult, Transfer.whole, hlast, he]
    · rw [ht, hret, if_pos (by decide)]
      exact ⟨rfl, (hwhole .eof nofun).symm⟩
    · obtain ⟨-, hpos, -, hfull⟩ := blockRet hk hy.le
      rw [ht, hret]
      by_cases hy0 : y = 0
      · rw [if_pos (hpos.mpr hy0)]
        exact ⟨rfl, (hwhole .failed nofun).symm⟩
      · rw [if_neg (mt hpos.mp hy0), if_pos (mt hfull.mp hy.ne)]
        exact ⟨rfl, (hwhole .failed nofun).symm⟩

end

/-! ## 6. What a call stands for -/

def readTransfer (os : Os) (fd count : UInt32) : Transfer :=
  transfer os (fun _ k => .read fd k) PosixAnswer.readAmount 0 count.toNat []

def writeTransfer (os : Os) (fd : UInt32) (buf : List UInt8) : Transfer :=
  transfer os (fun t k => .write fd ((buf.drop t).take k)) PosixAnswer.writeAmount 0 buf.length []

def PosixCall.isOpen : PosixCall → Bool
  | .open _ _ _ => true
  | _ => false

/-- The calls in the log are the POSIX call, or calls, with the arguments of the call, and its
result is theirs.  An `open` may have to make the directory and try again: each try has the
arguments, and the last one gives the result.  `lseek` tells only whether it was done. -/
def Performs (os : Os) : ReeCall → ReeResult → PosixLog → Prop
  | .remove storename filename, r, log =>
    let c := .remove (storePath storename filename)
    log = [(c, os 0 c)] ∧ r.ret = (os 0 c).ret.toUInt32
  | .open storename filename flags mode, r, log =>
    let c := .open (storePath storename filename) flags mode
    (∀ e ∈ log, e.1.isOpen = true → e.1 = c) ∧
      ∃ i, log[i]? = some (c, os i c) ∧ (∀ e ∈ log.drop (i + 1), e.1.isOpen = false) ∧
        r.ret = (os i c).ret.toUInt32
  | .close fd, r, log => log = [(.close fd, os 0 (.close fd))] ∧ r.ret = (os 0 (.close fd)).ret.toUInt32
  | .read fd count, r, log =>
    let t := readTransfer os fd count
    log = t.log ∧ r.ret = t.result ∧ r.data = readBytes t.log
  | .write fd _ buf, r, log =>
    let t := writeTransfer os fd buf.toList
    log = t.log ∧ r.ret = t.result
  | .fstat fd, r, log =>
    let a := os 0 (.fstat fd)
    log = [(.fstat fd, a)] ∧ r.ret = a.ret.toUInt32 ∧
      r.stSize.map UInt32.toNat = if a.ret = 0 then some a.stSize else none
  | .lseek fd offset whence, r, log =>
    let a := os 0 (.lseek fd offset whence)
    log = [(.lseek fd offset whence, a)] ∧ r.ret = if a.off = none then 0xFFFFFFFF else 0

/-- The transfer is complete, or ends between two blocks, and not by its first call failing. -/
def Transfer.AtBlockEnd (t : Transfer) : Prop :=
  t.how = .full ∨ t.total % tzBlockSize = 0 ∧ (t.how = .failed → t.total ≠ 0)

/-- When the two programs do that. -/
def PerformsWhen (os : Os) : ReeCall → Prop
  | .remove _ _ => True
  | .open _ _ flags mode => flags = oRdwr ||| oCreat ∧ mode = sIrwxu
  | .close _ => True
  | .read fd count => (readTransfer os fd count).AtBlockEnd
  | .write fd _ buf => (writeTransfer os fd buf.toList).AtBlockEnd
  | .fstat fd => (os 0 (.fstat fd)).ret = 0 → (os 0 (.fstat fd)).stSize < 4294967296
  | .lseek fd offset whence => (whence = 1 ∨ whence = 0) ∧
    ∀ off, (os 0 (.lseek fd offset whence)).off = some off → off % 4294967296 ≠ 4294967295

section

variable {os : Os}

theorem whole_eq_iff {t : Transfer} : t.whole = t.total ↔ t.how = .full ∨ t.total % tzBlockSize = 0 := by
  have hle := Nat.mod_le t.total tzBlockSize
  unfold Transfer.whole
  split
  · rename_i h
    exact ⟨fun _ => Or.inl h, fun _ => rfl⟩
  · rename_i h
    rw [or_iff_right h]
    omega

theorem whole_le (t : Transfer) : t.whole ≤ t.total := by
  unfold Transfer.whole
  split <;> omega

/-- -1 as the code returns it. -/
theorem minusOne_eq_ofNat : (0xFFFFFFFF : UInt32) = UInt32.ofNat 4294967295 := rfl

/-- The two results are right in the same transfers. -/
theorem writeResult_eq_iff {t : Transfer} (hsize : t.total < 4294967296) :
    writeResult t = t.result ↔ t.AtBlockEnd := by
  have hwhole := whole_le t
  unfold writeResult Transfer.result
  by_cases hfail : t.how = .failed ∧ t.total = 0
  · rw [if_pos hfail, minusOne_eq_ofNat,
      ofNat_inj (by omega) (by decide)]
    constructor
    · intro h
      omega
    · rintro (h | ⟨-, h⟩)
      · exact absurd (h.symm.trans hfail.1) nofun
      · exact absurd hfail.2 (h hfail.1)
  · rw [if_neg hfail, ofNat_inj (by omega) hsize, whole_eq_iff, Transfer.AtBlockEnd]
    exact or_congr_right (iff_self_and.mpr fun _ hf h0 => hfail ⟨hf, h0⟩)

theorem readResult_eq_iff {t : Transfer} (hsize : t.how ≠ .full → t.total < 4294967295)
    (hfull : t.how = .full → t.total < 4294967296) : readResult t = t.result ↔ t.AtBlockEnd := by
  have hlt : t.total < 4294967296 := by
    by_cases h : t.how = .full
    · exact hfull h
    · exact (hsize h).trans (by decide)
  unfold readResult
  split
  · rename_i hcut
    have hne : ¬ (t.how = .failed ∧ t.total = 0) := by
      rintro ⟨-, h0⟩
      rw [h0] at hcut
      exact hcut.2 rfl
    rw [Transfer.result, if_neg hne, minusOne_eq_ofNat,
      ofNat_inj (by decide) hlt]
    constructor
    · intro h
      exact absurd h.symm (hsize (hcut.1 ▸ nofun)).ne
    · rintro (h | ⟨h, -⟩)
      · exact absurd (h.symm.trans hcut.1) nofun
      · exact absurd h hcut.2
  · exact writeResult_eq_iff hlt

/-! ## 7. The two programs together -/

theorem requestName_eq (c : TzCtlrSpace) (storename filename : Bytes 32) :
    requestName ((c.setBytes dirnameAt storename.toList).setBytes filenameAt filename.toList) =
      storePath storename filename := by
  have hs : storename.toList.length = 32 := storename.toList_length
  have hf : filename.toList.length = 32 := filename.toList_length
  have hdir : ((c.setBytes dirnameAt storename.toList).setBytes filenameAt filename.toList).bytes
      dirnameAt tzFsHashSize = storename.toList := by
    refine (Bytes.slice_write_other (Or.inl (by decide))).trans ?_
    have hself := Bytes.slice_write_self (d := c.params) (p := dirnameAt) (b := storename.toList)
      (by rw [hs]; decide)
    rwa [hs] at hself
  have hfile : ((c.setBytes dirnameAt storename.toList).setBytes filenameAt filename.toList).bytes
      filenameAt tzFsHashSize = filename.toList := by
    have hself := Bytes.slice_write_self (d := (c.setBytes dirnameAt storename.toList).params)
      (p := filenameAt) (b := filename.toList) (by rw [hf]; decide)
    rwa [hf] at hself
  rw [requestName, hdir, hfile, getFsString_eq]

theorem requestName_setWord (c : TzCtlrSpace) (w : UInt32) :
    requestName (c.setWord openFlagsAt w) = requestName c := by
  have hother (q k : Nat) (h : q + k ≤ openFlagsAt) :
      (c.setWord openFlagsAt w).bytes q k = c.bytes q k :=
    Bytes.slice_write_other (Or.inl h)
  rw [requestName, hother _ _ (by decide), hother _ _ (by decide), requestName]

theorem dispatchCtrl_eq (log : PosixLog) (c : TzCtlrSpace) :
    (c.op = tzCtrlReeFsRemove → serviceDoRequest os log c = tzFsRemove os log c) ∧
    (c.op = tzCtrlReeFsOpen → serviceDoRequest os log c = tzFsOpen os log c) ∧
    (c.op = tzCtrlReeFsClose → serviceDoRequest os log c = tzFsClose os log c) ∧
    (c.op = tzCtrlReeFsFstat → serviceDoRequest os log c = tzFsFstat os log c) ∧
    (c.op = tzCtrlReeFsLseek → serviceDoRequest os log c = tzFsLseek os log c) := by
  refine ⟨?_, ?_, ?_, ?_, ?_⟩
  all_goals
    intro h
    unfold serviceDoRequest dispatchCtrl
    rw [h]
    rfl

theorem reeRemove_performs (ctrl : TzCtlrSpace) (storename filename : Bytes 32) :
    Performs os (.remove storename filename) (reeRemove os [] ctrl storename filename).1
      (reeRemove os [] ctrl storename filename).2 := by
  simp only [reeRemove, Performs]
  rw [(dispatchCtrl_eq _ _).1 rfl]
  simp only [tzFsRemove, posix, requestName_eq, List.nil_append, List.length_nil, true_and]
  split
  · rfl
  · rename_i h
    exact (not_not.mp h).symm

variable (os) in
/-- The daemon opens the file with flags and a mode of its own. -/
theorem reeOpen_opens (ctrl : TzCtlrSpace) (storename filename : Bytes 32) (flags mode : UInt32) :
    Performs os (.open storename filename (oRdwr ||| oCreat) sIrwxu)
      (reeOpen os [] ctrl storename filename flags mode).1
      (reeOpen os [] ctrl storename filename flags mode).2 := by
  simp only [reeOpen, Performs]
  rw [(dispatchCtrl_eq _ _).2.1 rfl]
  simp only [tzFsOpen, posix, requestName_setWord, requestName_eq, List.nil_append,
    List.length_nil]
  generalize PosixCall.open (storePath storename filename) (oRdwr ||| oCreat) sIrwxu = c
  split
  · split
    · exact ⟨by simp [PosixCall.isOpen], 2, rfl, by simp, rfl⟩
    · exact ⟨by simp [PosixCall.isOpen], 0, rfl, by simp [PosixCall.isOpen], rfl⟩
  · exact ⟨by simp, 0, rfl, by simp, rfl⟩

theorem reeOpen_performs (ctrl : TzCtlrSpace) (storename filename : Bytes 32)
    (flags mode : UInt32) :
    Performs os (.open storename filename flags mode)
      (reeOpen os [] ctrl storename filename flags mode).1
      (reeOpen os [] ctrl storename filename flags mode).2 ↔
        flags = oRdwr ||| oCreat ∧ mode = sIrwxu := by
  obtain ⟨hopens, hlast⟩ := reeOpen_opens os ctrl storename filename flags mode
  constructor
  · rintro ⟨-, i, hi, -⟩
    have hsame := hopens _ (List.mem_of_getElem? hi) rfl
    simp only [PosixCall.open.injEq, true_and] at hsame
    exact hsame
  · rintro ⟨hflags, hmode⟩
    rw [← hflags, ← hmode] at hopens hlast
    exact ⟨hopens, hlast⟩

theorem reeClose_performs (ctrl : TzCtlrSpace) (fd : UInt32) :
    Performs os (.close fd) (reeClose os [] ctrl fd).1 (reeClose os [] ctrl fd).2 := by
  have hfd (c : TzCtlrSpace) : (c.setWord fdAt fd).word fdAt = fd := c.word_setWord fd (by decide)
  simp only [reeClose, Performs]
  rw [(dispatchCtrl_eq _ _).2.2.1 rfl]
  simp only [tzFsClose, posix, hfd, List.nil_append, List.length_nil, and_self]

theorem reeFstat_performs (ctrl : TzCtlrSpace) (fd : UInt32) :
    Performs os (.fstat fd) (reeFstat os [] ctrl fd).1 (reeFstat os [] ctrl fd).2 ↔
      ((os 0 (.fstat fd)).ret = 0 → (os 0 (.fstat fd)).stSize < 4294967296) := by
  have hfd (c : TzCtlrSpace) : (c.setWord fdAt fd).word fdAt = fd := c.word_setWord fd (by decide)
  have hsize (c : TzCtlrSpace) (w r : UInt32) :
      ({ c.setWord stSizeAt w with ret := r } : TzCtlrSpace).word stSizeAt = w :=
    c.word_setWord w (by decide)
  have hret (x : Int32) : x.toUInt32 = 0 ↔ x = 0 := ⟨fun h => by
    rw [← Int32.toInt32_toUInt32 x, h]
    rfl, fun h => by rw [h]; rfl⟩
  simp only [reeFstat, Performs]
  rw [(dispatchCtrl_eq _ _).2.2.2.1 rfl]
  simp only [tzFsFstat, posix, hfd, hsize, hret, List.nil_append, List.length_nil, true_and]
  by_cases h0 : (os 0 (.fstat fd)).ret = 0
  · rw [if_pos h0, if_pos h0, Option.map_some, Option.some.injEq, UInt32.toNat_ofNat', imp_iff_right h0]
    omega
  · rw [if_neg h0, if_neg h0]
    simp [h0]

theorem reeLseek_performs (ctrl : TzCtlrSpace) (fd offset whence : UInt32) :
    Performs os (.lseek fd offset whence) (reeLseek os [] ctrl fd offset whence).1
      (reeLseek os [] ctrl fd offset whence).2 ↔ (whence = 1 ∨ whence = 0) ∧
      ∀ off, (os 0 (.lseek fd offset whence)).off = some off → off % 4294967296 ≠ 4294967295 := by
  have hfd (c : TzCtlrSpace) (v w : UInt32) :
      (((c.setWord fdAt fd).setWord offsetAt v).setWord whenceAt w).word fdAt = fd := by
    rw [TzCtlrSpace.word_setWord_other _ _ (by decide),
      TzCtlrSpace.word_setWord_other _ _ (by decide), TzCtlrSpace.word_setWord _ _ (by decide)]
  have hoffset (c : TzCtlrSpace) (w : UInt32) :
      ((c.setWord offsetAt offset).setWord whenceAt w).word offsetAt = offset := by
    rw [TzCtlrSpace.word_setWord_other _ _ (by decide), TzCtlrSpace.word_setWord _ _ (by decide)]
  have hwhence (c : TzCtlrSpace) : (c.setWord whenceAt whence).word whenceAt = whence :=
    c.word_setWord whence (by decide)
  simp only [reeLseek, Performs]
  rw [(dispatchCtrl_eq _ _).2.2.2.2 rfl]
  simp only [tzFsLseek, posix, hfd, hoffset, hwhence, List.nil_append, List.length_nil]
  by_cases hw : whence = 1 ∨ whence = 0
  · have hsame : (if whence = 1 then seekCur else seekSet) = whence := by
      obtain rfl | rfl := hw <;> rfl
    simp only [if_pos hw, hsame, true_and, and_iff_right hw]
    cases (os 0 (.lseek fd offset whence)).off with
    | none => simp
    | some off =>
      have hall : (∀ o, some off = some o → o % 4294967296 ≠ 4294967295) ↔
          UInt32.ofNat off ≠ 0xFFFFFFFF := by
        rw [ne_eq, ← UInt32.toNat_inj, UInt32.toNat_ofNat']
        simp
      rw [hall]
      by_cases h : UInt32.ofNat off = 0xFFFFFFFF
      · simp [h]
      · simp [h]
  · rw [if_neg hw]
    simp [hw]

/-- **A call of `ree_fs.c` does in the normal world what it says** if and only if its arguments and
the answers of the operating system are of the kind that `PerformsWhen` describes: the flags and the
mode of an `open` are those that the daemon uses, a transfer does not end within a block or by its
first call failing, the size of a file is a word, and an offset is neither taken from the end of the
file nor one that reads as -1. -/
theorem ree_performs_iff (os : Os) (ctrl : TzCtlrSpace) (call : ReeCall) :
    Performs os call (reeCall os ctrl call).1 (reeCall os ctrl call).2 ↔ PerformsWhen os call := by
  cases call with
  | remove storename filename =>
    exact iff_of_true (reeRemove_performs ctrl storename filename) trivial
  | «open» storename filename flags mode => exact reeOpen_performs ctrl storename filename flags mode
  | close fd => exact iff_of_true (reeClose_performs ctrl fd) trivial
  | read fd count =>
    have hcount : count.toNat < 4294967296 := count.toNat_lt
    obtain ⟨hlog, hret, hdata⟩ := reeReadLoop_spec os fd (count.toNat + 1) ctrl count.toNat
      [] (fun _ => rfl) (by simpa [readBytes] using hcount) (Nat.lt_succ_self _)
    obtain ⟨-, hfull, hcut⟩ := transfer_total os (fun _ k => .read fd k)
      readAmount_le 0 count.toNat []
    have hresult : readResult (readTransfer os fd count) = (readTransfer os fd count).result ↔
        (readTransfer os fd count).AtBlockEnd :=
      readResult_eq_iff (fun h => (hcut h).trans_le (by omega)) (fun h => (hfull h).trans_lt (by omega))
    constructor
    · rintro ⟨-, h, -⟩
      exact hresult.mp (hret.symm.trans h)
    · intro h
      exact ⟨hlog, hret.trans (hresult.mpr h), hdata (h.imp_right And.left)⟩
  | write fd count buf =>
    have hsize : buf.toList.length < 4294967296 := by
      rw [List.Vector.toList_length]
      exact count.toNat_lt
    obtain ⟨hlog, hret⟩ := reeWriteLoop_spec os fd buf.toList (count.toNat + 1) ctrl 0 []
      (Nat.zero_le _) (fun _ => rfl) hsize (by rw [List.Vector.toList_length]; omega)
    obtain ⟨-, hfull, hcut⟩ := transfer_total os
      (fun t k => .write fd ((buf.toList.drop t).take k)) writeAmount_le 0 buf.toList.length []
    have hlt : (writeTransfer os fd buf.toList).total < 4294967296 := by
      by_cases h : (writeTransfer os fd buf.toList).how = .full
      · exact (hfull h).trans_lt (by omega)
      · exact (hcut h).trans (by omega)
    constructor
    · rintro ⟨-, h⟩
      exact (writeResult_eq_iff hlt).mp (hret.symm.trans h)
    · intro h
      exact ⟨hlog, hret.trans ((writeResult_eq_iff hlt).mpr h)⟩
  | fstat fd => exact reeFstat_performs ctrl fd
  | lseek fd offset whence => exact reeLseek_performs ctrl fd offset whence

/-- An operating system whose calls all give 0. -/
def quietOs : Os := fun _ _ => ⟨0, [], 0, 0, some 0, false⟩

/-- An `open` with other flags is not done. -/
theorem open_drops_flags : ¬ ∀ (os : Os) (ctrl : TzCtlrSpace) (call : ReeCall),
    Performs os call (reeCall os ctrl call).1 (reeCall os ctrl call).2 := by
  intro h
  have hopen := (reeOpen_performs _ _ _ 0 0).mp
    (h quietOs ⟨0, 0, Bytes.zero _⟩ (.open (Bytes.zero 32) (Bytes.zero 32) 0 0))
  exact absurd hopen.1 (by decide)

end

end AndixOs.Service
