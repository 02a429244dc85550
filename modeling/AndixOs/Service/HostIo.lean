/-
# What becomes of a failing read or write of the host

A block of the secure file system goes through two loops, one in `ree_fs.c` and one in the daemon,
over what `read` and `write` of the host give: short counts, the end of the file, errors.  Here the
host has a file (`ReadsFile`), and its calls may move as little as they like and fail at any point.

* **Read.**  `tz_fs_read` forgets an error: where the first call of a block fails it answers 0, which
  is the end of the file (`failed_read_is_eof`); and it forgets the bytes before the end of the
  file, since it answers 0 there too.  `ree_io_told_iff` says exactly when `ree_read` returns the
  bytes that remain, or a negative value where a read failed.
* **Write.**  `ree_write` returns the count only if the host took every byte (`reeWrite_told`).
-/
import AndixOs.Service.Refine

namespace AndixOs.Service

open AndixOs

/-! ## 1. A host with a file -/

/-- The answers to the reads of a log, oldest first, are those of a file with this content that is
read from `pos`: a read that does not fail gives some of what lies there, and nothing only where
nothing is left or nothing was asked for. -/
def ReadsFile (content : List UInt8) : Nat → PosixLog → Prop
  | _, [] => True
  | pos, (.read _ k, a) :: log =>
    if a.ret < 0 then ReadsFile content pos log
    else
      (a.data.take k <+: content.drop pos ∧
        (a.data.take k = [] → k = 0 ∨ content.length ≤ pos)) ∧
        ReadsFile content (pos + (a.data.take k).length) log
  | pos, _ :: log => ReadsFile content pos log

/-- A read of the host failed. -/
def ReadFailed (log : PosixLog) : Prop := ∃ fd k a, (.read fd k, a) ∈ log ∧ a.ret < 0

/-- What the host took of the bytes it was given. -/
def writtenBytes (log : PosixLog) : List UInt8 :=
  log.flatMap fun e => match e.1 with
    | .write _ data => if e.2.ret < 0 then [] else data.take e.2.taken
    | _ => []

theorem readsFile_nil (content : List UInt8) (pos : Nat) : ReadsFile content pos [] := trivial

theorem readsFile_read {content : List UInt8} {pos k : Nat} {fd : UInt32} {a : PosixAnswer}
    {log : PosixLog} : ReadsFile content pos ((.read fd k, a) :: log) ↔
      if a.ret < 0 then ReadsFile content pos log
      else
        (a.data.take k <+: content.drop pos ∧
          (a.data.take k = [] → k = 0 ∨ content.length ≤ pos)) ∧
          ReadsFile content (pos + (a.data.take k).length) log := Iff.rfl

theorem readsFile_append (content : List UInt8) (e : PosixCall × PosixAnswer) :
    ∀ (log : PosixLog) (pos : Nat), ReadsFile content pos (log ++ [e]) ↔
      ReadsFile content pos log ∧ ReadsFile content (pos + (readBytes log).length) [e]
  | [], pos => by simp [ReadsFile, readBytes]
  | (.read fd k, b) :: log, pos => by
    have hcons : readBytes ((.read fd k, b) :: log) =
        (if b.ret < 0 then [] else b.data.take k) ++ readBytes log := by
      simp [readBytes]
    have ih := readsFile_append content e log
    rw [List.cons_append, readsFile_read, readsFile_read, hcons]
    by_cases hb : b.ret < 0
    · rw [if_pos hb, if_pos hb, if_pos hb, ih, List.nil_append]
    · rw [if_neg hb, if_neg hb, if_neg hb, ih, List.length_append, ← Nat.add_assoc,
        ← and_assoc]
  | (.open _ _ _, _) :: log, pos | (.mkdir _ _, _) :: log, pos | (.remove _, _) :: log, pos
  | (.close _, _) :: log, pos | (.write _ _, _) :: log, pos | (.fstat _, _) :: log, pos
  | (.lseek _ _ _, _) :: log, pos => readsFile_append content e log pos

-- a log is read by the lemmas above, also where it is that of a call on given arguments
attribute [irreducible] ReadsFile

theorem writtenBytes_append (log : PosixLog) (fd : UInt32) (data : List UInt8) (a : PosixAnswer) :
    writtenBytes (log ++ [(.write fd data, a)]) =
      writtenBytes log ++ if a.ret < 0 then [] else data.take a.taken := by
  simp [writtenBytes]

theorem readFailed_append (log : PosixLog) (fd : UInt32) (k : Nat) (a : PosixAnswer) :
    ReadFailed (log ++ [(.read fd k, a)]) ↔ ReadFailed log ∨ a.ret < 0 := by
  constructor
  · rintro ⟨fd', k', b, hmem, hb⟩
    rcases List.mem_append.mp hmem with hmem | hmem
    · exact Or.inl ⟨fd', k', b, hmem, hb⟩
    · obtain rfl : b = a := congrArg Prod.snd (List.mem_singleton.mp hmem)
      exact Or.inr hb
  · rintro (⟨fd', k', b, hmem, hb⟩ | ha)
    · exact ⟨fd', k', b, List.mem_append_left _ hmem, hb⟩
    · exact ⟨fd, k, a, List.mem_append_right _ List.mem_cons_self, ha⟩

/-! ## 2. What the calls of a transfer have moved -/

section

variable {os : Os} {req : Nat → Nat → PosixCall} {amount : Nat → PosixAnswer → Option Nat}

variable (os req) in
/-- **The rule for transfers.**  `P` holds of what was moved so far and of the calls, and is kept by
a call that moves something; `Q` is what the three ends make of it. -/
theorem transfer_rule {P : Nat → PosixLog → Prop} {Q : Transfer → Prop}
    (hmove : ∀ total k log a n, P total log → amount k a = some (n + 1) →
      P (total + (n + 1)) (log ++ [(req total k, a)]))
    (hfull : ∀ total log, P total log → Q ⟨total, .full, log⟩)
    (heof : ∀ total k log a, 0 < k → P total log → amount k a = some 0 →
      Q ⟨total, .eof, log ++ [(req total k, a)]⟩)
    (hfailed : ∀ total k log a, P total log → amount k a = none →
      Q ⟨total, .failed, log ++ [(req total k, a)]⟩) (total left : Nat) (log : PosixLog)
    (hP : P total log) : Q (transfer os req amount total left log) := by
  induction left using Nat.strong_induction_on generalizing total log with
  | _ left ih =>
    rcases Nat.eq_zero_or_pos left with rfl | hleft
    · rw [transfer_zero]
      exact hfull total log hP
    · have hk : 0 < min left (tzBlockSize - total % tzBlockSize) :=
        Nat.lt_min.mpr ⟨hleft, Nat.sub_pos_of_lt (Nat.mod_lt _ (by decide))⟩
      rw [transfer_step log hleft.ne' rfl]
      split
      · rename_i hnone
        exact hfailed _ _ _ _ hP hnone
      · rename_i hzero
        exact heof _ _ _ _ hk hP hzero
      · rename_i n hn
        exact ih _ (Nat.sub_lt hleft (Nat.succ_pos n)) _ _ (hmove _ _ _ _ _ hP hn)

end

variable {os : Os}

theorem readAmount_none {k : Nat} {a : PosixAnswer} (h : a.readAmount k = none) : a.ret < 0 := by
  rw [PosixAnswer.readAmount] at h
  split at h
  · assumption
  · exact nomatch h

theorem readAmount_some {k n : Nat} {a : PosixAnswer} (h : a.readAmount k = some n) :
    ¬ a.ret < 0 ∧ (a.data.take k).length = n := by
  rw [PosixAnswer.readAmount] at h
  split at h
  · exact nomatch h
  · exact ⟨‹_›, Option.some.inj h⟩

theorem writeAmount_some {k n : Nat} {a : PosixAnswer} (h : a.writeAmount k = some n) :
    ¬ a.ret < 0 ∧ min a.taken k = n := by
  rw [PosixAnswer.writeAmount] at h
  split at h
  · exact nomatch h
  · exact ⟨‹_›, Option.some.inj h⟩

/-- The log says whether the transfer failed. -/
theorem readTransfer_failed_iff (os : Os) (fd count : UInt32) :
    ReadFailed (readTransfer os fd count).log ↔ (readTransfer os fd count).how = .failed := by
  refine transfer_rule os _ (P := fun _ log => ¬ ReadFailed log)
    (Q := fun t => ReadFailed t.log ↔ t.how = .failed) ?_ ?_ ?_ ?_ 0 count.toNat []
    (fun ⟨_, _, _, h, _⟩ => List.not_mem_nil h)
  · intro _ k log a n hlog hn
    rw [readFailed_append]
    exact not_or.mpr ⟨hlog, (readAmount_some hn).1⟩
  · intro _ log hlog
    exact iff_of_false hlog nofun
  · intro _ k log a _ hlog hzero
    rw [readFailed_append]
    exact iff_of_false (not_or.mpr ⟨hlog, (readAmount_some hzero).1⟩) nofun
  · intro _ k log a hlog hnone
    rw [readFailed_append]
    exact iff_of_true (Or.inr (readAmount_none hnone)) rfl

/-- On a host with a file a transfer reads what lies there, and ends only at its end, where no call
fails and not all is read. -/
theorem readTransfer_file {fd count : UInt32} {content : List UInt8} {pos : Nat}
    (hfile : ReadsFile content pos (readTransfer os fd count).log) :
    let t := readTransfer os fd count
    readBytes t.log = (content.drop pos).take t.total ∧ t.total ≤ content.length - pos ∧
      (t.how = .eof → t.total = content.length - pos) := by
  revert hfile
  refine transfer_rule os _
    (P := fun total log => ReadsFile content pos log →
      readBytes log = (content.drop pos).take total ∧ total ≤ content.length - pos)
    (Q := fun t => ReadsFile content pos t.log →
      readBytes t.log = (content.drop pos).take t.total ∧ t.total ≤ content.length - pos ∧
        (t.how = .eof → t.total = content.length - pos)) ?_ ?_ ?_ ?_ 0 count.toNat []
    (fun _ => ⟨by simp [readBytes], Nat.zero_le _⟩)
  · intro total k log a n hlog hn hfile
    obtain ⟨hbefore, hread⟩ := (readsFile_append _ _ _ _).mp hfile
    obtain ⟨hbytes, hle⟩ := hlog hbefore
    obtain ⟨hret, hlen⟩ := readAmount_some hn
    have hsofar : (readBytes log).length = total := by
      rw [hbytes, List.length_take, List.length_drop]
      omega
    rw [readsFile_read, if_neg hret, hsofar, ← List.drop_drop] at hread
    obtain ⟨rest, hrest⟩ := hread.1.1
    rw [readBytes_append, if_neg hret, hbytes, ← hlen, List.take_add, ← hrest, List.take_left]
    refine ⟨rfl, ?_⟩
    have hwhole := congrArg List.length hrest
    rw [List.length_append, List.length_drop, List.length_drop] at hwhole
    omega
  · intro total log hlog hfile
    exact ⟨(hlog hfile).1, (hlog hfile).2, fun h => by cases h⟩
  · intro total k log a hk hlog hzero hfile
    obtain ⟨hbefore, hread⟩ := (readsFile_append _ _ _ _).mp hfile
    obtain ⟨hbytes, hle⟩ := hlog hbefore
    obtain ⟨hret, hlen⟩ := readAmount_some hzero
    have hnil := List.length_eq_zero_iff.mp hlen
    have hsofar : (readBytes log).length = total := by
      rw [hbytes, List.length_take, List.length_drop]
      omega
    rw [readsFile_read, if_neg hret, hsofar] at hread
    have hend := (hread.1.2 hnil).resolve_left hk.ne'
    rw [readBytes_append, if_neg hret, hnil, List.append_nil]
    exact ⟨hbytes, hle, fun _ => by simp only; omega⟩
  · intro total k log a hlog hnone hfile
    obtain ⟨hbytes, hle⟩ := hlog ((readsFile_append _ _ _ _).mp hfile).1
    rw [readBytes_append, if_pos (readAmount_none hnone), List.append_nil]
    exact ⟨hbytes, hle, fun h => by cases h⟩

/-- The calls of a transfer have written as many bytes as it moved, in order. -/
theorem writeTransfer_written (os : Os) (fd : UInt32) (buf : List UInt8) :
    (writeTransfer os fd buf).how = .full → writtenBytes (writeTransfer os fd buf).log = buf := by
  have hwritten : (writeTransfer os fd buf).how = .full →
      writtenBytes (writeTransfer os fd buf).log = buf.take (writeTransfer os fd buf).total :=
    transfer_rule os (fun t k => .write fd ((buf.drop t).take k))
    (P := fun total log => writtenBytes log = buf.take total)
    (Q := fun t => t.how = .full → writtenBytes t.log = buf.take t.total) ?_
    (fun _ _ hlog _ => hlog) (fun _ _ _ _ _ _ _ => nofun) (fun _ _ _ _ _ _ => nofun)
    0 buf.length [] rfl
  · intro hfull
    obtain ⟨-, htotal, -⟩ := transfer_total os
      (fun t k => .write fd ((buf.drop t).take k)) writeAmount_le 0 buf.length []
    have hall : (writeTransfer os fd buf).total = 0 + buf.length := htotal hfull
    rw [hwritten hfull, hall, Nat.zero_add, List.take_length]
  · intro total k log a n hlog hn
    obtain ⟨hret, htaken⟩ := writeAmount_some hn
    rw [writtenBytes_append, if_neg hret, hlog, List.take_take, htaken]
    exact List.take_add.symm

/-! ## 3. What the two programs tell -/

/-- `ree_read` returns exactly the bytes that remain, as many as were asked for, or a negative value
where a read of the host failed; and where one failed it does not return 0, the end of the file. -/
def ReadTold (content : List UInt8) (pos count : Nat) (r : ReeResult) (log : PosixLog) : Prop :=
  let n := min count (content.length - pos)
  (r.ret.toInt32.toInt = n ∧ r.data = (content.drop pos).take n ∨
      r.ret.toInt32.toInt < 0 ∧ ReadFailed log) ∧
    (ReadFailed log → r.ret ≠ 0)

theorem ReadTold.not_eof {content : List UInt8} {pos count : Nat} {r : ReeResult} {log : PosixLog}
    (h : ReadTold content pos count r log) : ReadFailed log → r.ret ≠ 0 :=
  And.right h

/-- `ree_write` returns the count only if the host took every byte. -/
def WriteTold (buf : List UInt8) (count : UInt32) (r : ReeResult) (log : PosixLog) : Prop :=
  r.ret = count → writtenBytes log = buf

/-- The answers of the host of which that is so.  Where a read fails, the bytes before it end within a
block, or they are all that remain (and some), or they are too many for an `int32_t`.  Where none
fails, the bytes that remain are enough, or whole blocks. -/
def ReadTellable (os : Os) (fd count : UInt32) (content : List UInt8) (pos : Nat) : Prop :=
  let t := readTransfer os fd count
  let rest := content.length - pos
  if t.how = .failed then
    t.total % tzBlockSize ≠ 0 ∨ (t.total = rest ∧ t.total ≠ 0) ∨ 2147483648 ≤ t.total
  else (count.toNat ≤ rest ∨ rest % tzBlockSize = 0) ∧ min count.toNat rest < 2147483648

/-- A word as an `int32_t`. -/
theorem toInt_toInt32_word {n : Nat} (h : n < 4294967296) :
    (UInt32.ofNat n).toInt32.toInt = if n < 2147483648 then (n : Int) else n - 4294967296 := by
  rw [UInt32.toInt32_ofNat', Int32.toInt_ofNat', Int.bmod_def]
  simp only [Int32.size]
  omega

theorem reeWrite_told (os : Os) (ctrl : TzCtlrSpace) (fd count : UInt32)
    (buf : Bytes count.toNat) :
    WriteTold buf.toList count (reeWrite os [] ctrl fd count buf).1
      (reeWrite os [] ctrl fd count buf).2 := by
  have hlen : buf.toList.length = count.toNat := buf.toList_length
  have hsize : count.toNat < 4294967296 := count.toNat_lt
  obtain ⟨hlog, hret⟩ := reeWriteLoop_spec os fd buf.toList (count.toNat + 1) ctrl 0 []
    (Nat.zero_le _) (fun _ => rfl) (by omega) (by omega)
  obtain ⟨-, hfull, hcut⟩ := transfer_total os
    (fun t k => .write fd ((buf.toList.drop t).take k)) writeAmount_le 0 buf.toList.length []
  intro hcount
  have hend : (writeTransfer os fd buf.toList).how = .full := by
    by_contra hnot
    have hless : (writeTransfer os fd buf.toList).total < 0 + buf.toList.length := hcut hnot
    have hwhole := whole_le (writeTransfer os fd buf.toList)
    have hreturned : writeResult (writeTransfer os fd buf.toList) = count := hret.symm.trans hcount
    have hnat := congrArg UInt32.toNat hreturned
    rw [writeResult, UInt32.toNat_ofNat'] at hnat
    omega
  exact (congrArg writtenBytes hlog).trans (writeTransfer_written os fd buf.toList hend)

/-! ## 4. When the bytes of a file, or an error, are told -/

/-- What `ree_read` makes of a transfer, by how it ended. -/
theorem readTold_iff {t : Transfer} {content : List UInt8} {pos count : Nat} {r : ReeResult}
    (hret : r.ret = readResult t) (hcount : count < 4294967296)
    (hdata : t.how = .full ∨ t.total % tzBlockSize = 0 →
      r.data = (content.drop pos).take t.total)
    (hle : t.total ≤ content.length - pos) (hfull : t.how = .full → t.total = count)
    (hcut : t.how ≠ .full → t.total < count)
    (heof : t.how = .eof → t.total = content.length - pos)
    (hfailed : ReadFailed t.log ↔ t.how = .failed) :
    ReadTold content pos count r t.log ↔
      if t.how = .failed then
        t.total % tzBlockSize ≠ 0 ∨ (t.total = content.length - pos ∧ t.total ≠ 0) ∨
          2147483648 ≤ t.total
      else (count ≤ content.length - pos ∨ (content.length - pos) % tzBlockSize = 0) ∧
        min count (content.length - pos) < 2147483648 := by
  have hwhole := whole_le t
  simp only [ReadTold, hfailed, hret, readResult]
  cases hhow : t.how with
  | failed =>
    have hless := hcut (by simp [hhow])
    rw [if_pos rfl]
    by_cases hmod : t.total % tzBlockSize = 0
    · -- the error is forgotten: the bytes before it are returned, also where there are none
      have hall : t.whole = t.total := whole_eq_iff.mpr (Or.inr hmod)
      rw [if_neg (fun h => h.2 hmod), hall, toInt_toInt32_word (by omega), hdata (Or.inr hmod)]
      have hzero : UInt32.ofNat t.total = 0 ↔ t.total = 0 :=
        ofNat_inj (b := 0) (by omega) (by decide)
      have hn : t.total = min count (content.length - pos) ↔ t.total = content.length - pos := by
        omega
      simp only [ne_eq, hzero, hmod, not_true_eq_false, false_or, true_implies, and_true]
      split
      · rename_i hsmall
        constructor
        · rintro ⟨⟨htotal, -⟩ | hneg, hne⟩
          · exact Or.inl ⟨hn.mp (by exact_mod_cast htotal), hne⟩
          · omega
        · rintro (⟨htotal, hne⟩ | hlarge)
          · have heq := hn.mpr htotal
            exact ⟨Or.inl ⟨by exact_mod_cast heq, by rw [← heq]⟩, hne⟩
          · omega
      · rename_i hlarge
        exact iff_of_true ⟨Or.inr (by omega), by omega⟩ (Or.inr (by omega))
    · rw [if_pos ⟨rfl, hmod⟩]
      exact iff_of_true ⟨Or.inr ⟨by decide, rfl⟩, fun _ => by decide⟩ (Or.inl hmod)
  | eof =>
    have hless := hcut (by simp [hhow])
    have htotal := heof hhow
    have hn : min count (content.length - pos) = t.total := by omega
    rw [if_neg (fun h => by cases h.1), if_neg (by simp), toInt_toInt32_word (by omega), hn, ← htotal]
    simp only [reduceCtorEq, and_false, or_false, false_implies, and_true]
    constructor
    · rintro ⟨hsame, -⟩
      have hends : t.total % tzBlockSize = 0 := by
        refine (whole_eq_iff.mp ?_).resolve_left (by simp [hhow])
        split at hsame <;> omega
      have hall : t.whole = t.total := whole_eq_iff.mpr (Or.inr hends)
      exact ⟨Or.inr hends, by split at hsame <;> omega⟩
    · rintro ⟨hmod, hsmall⟩
      have hends := hmod.resolve_left (by omega)
      have hall : t.whole = t.total := whole_eq_iff.mpr (Or.inr hends)
      rw [hall, if_pos hsmall]
      exact ⟨rfl, hdata (Or.inr hends)⟩
  | full =>
    have htotal := hfull hhow
    have hall : t.whole = t.total := whole_eq_iff.mpr (Or.inl hhow)
    have hn : min count (content.length - pos) = t.total := by omega
    rw [if_neg (fun h => by cases h.1), if_neg (by simp), toInt_toInt32_word (by omega), hn, hall,
      hdata (Or.inl hhow)]
    simp only [reduceCtorEq, and_false, or_false, false_implies, and_true]
    constructor
    · intro hsame
      exact ⟨Or.inl (by omega), by split at hsame <;> omega⟩
    · rintro ⟨-, hsmall⟩
      rw [if_pos hsmall]

/-- `ree_read` makes the calls of the transfer. -/
theorem reeRead_transfer (os : Os) (ctrl : TzCtlrSpace) (fd count : UInt32) :
    (reeRead os [] ctrl fd count).2 = (readTransfer os fd count).log ∧
      (reeRead os [] ctrl fd count).1.ret = readResult (readTransfer os fd count) ∧
      ((readTransfer os fd count).how = .full ∨ (readTransfer os fd count).total % tzBlockSize = 0 →
        (reeRead os [] ctrl fd count).1.data = readBytes (readTransfer os fd count).log) :=
  reeReadLoop_spec os fd (count.toNat + 1) ctrl count.toNat [] (fun _ => rfl)
    (by simpa [readBytes] using count.toNat_lt) (Nat.lt_succ_self _)

/-- **The bytes of a file or an error are told**, by `ree_read` over `tz_fs_read` and by `ree_write`
over `tz_fs_write`, exactly where the answers of the host are of the kind that `ReadTellable`
describes; the write tells it always. -/
theorem ree_io_told_iff (os : Os) (ctrl : TzCtlrSpace) (fd count : UInt32)
    (buf : Bytes count.toNat) (content : List UInt8) (pos : Nat)
    (hfile : ReadsFile content pos (reeRead os [] ctrl fd count).2) :
    (ReadTold content pos count.toNat (reeRead os [] ctrl fd count).1
        (reeRead os [] ctrl fd count).2 ∧
      WriteTold buf.toList count (reeWrite os [] ctrl fd count buf).1
        (reeWrite os [] ctrl fd count buf).2) ↔ ReadTellable os fd count content pos := by
  obtain ⟨hlog, hret, hdata⟩ := reeRead_transfer os ctrl fd count
  obtain ⟨-, hfull, hcut⟩ := transfer_total os (fun _ k => .read fd k) readAmount_le 0
    count.toNat []
  rw [and_iff_left (reeWrite_told os ctrl fd count buf), hlog]
  rw [hlog] at hfile
  obtain ⟨hbytes, hle, heof⟩ := readTransfer_file hfile
  exact readTold_iff hret count.toNat_lt (fun h => (hdata h).trans hbytes) hle
    (fun h => (hfull h).trans (Nat.zero_add _)) (fun h => (hcut h).trans_eq (Nat.zero_add _)) heof
    (readTransfer_failed_iff os fd count)

/-- A host with a file of two bytes that moves one byte a call. -/
def slowOs : Os := fun n _ => ⟨1, [[7, 8].getD n 0], 1, 0, none, false⟩

theorem readTransfer_slow : readTransfer slowOs 3 2 =
    ⟨2, .full, [(.read 3 2, ⟨1, [7], 1, 0, none, false⟩),
      (.read 3 1, ⟨1, [8], 1, 0, none, false⟩)]⟩ := by
  have hk : 2 = min 2 (tzBlockSize - 0 % tzBlockSize) := by decide
  have hk' : 1 = min 1 (tzBlockSize - 1 % tzBlockSize) := by decide
  have hone : (slowOs 0 (.read 3 2)).readAmount 2 = some 1 := by decide
  have htwo : (slowOs 1 (.read 3 1)).readAmount 1 = some 1 := by decide
  have hcount : (2 : UInt32).toNat = 2 := by decide
  rw [readTransfer, hcount, transfer_step [] (by decide) hk]
  simp only [List.length_nil, hone, List.nil_append]
  rw [transfer_step _ (by decide) hk']
  simp only [List.length_singleton, htwo]
  rw [transfer_zero]
  rfl

theorem readsFile_slow : ReadsFile [7, 8] 0 (reeRead slowOs [] ⟨0, 0, Bytes.zero paramsSize⟩ 3 2).2 := by
  rw [(reeRead_transfer slowOs _ 3 2).1, readTransfer_slow, readsFile_read, if_neg (by decide),
    readsFile_read, if_neg (by decide)]
  exact ⟨by decide, by decide, readsFile_nil _ _⟩

/-- Both bytes of that file are read, and two are written. -/
theorem ree_io_told_slow :
    ReadTold [7, 8] 0 (2 : UInt32).toNat (reeRead slowOs [] ⟨0, 0, Bytes.zero paramsSize⟩ 3 2).1
        (reeRead slowOs [] ⟨0, 0, Bytes.zero paramsSize⟩ 3 2).2 ∧
      WriteTold (Bytes.zero (2 : UInt32).toNat).toList 2
        (reeWrite slowOs [] ⟨0, 0, Bytes.zero paramsSize⟩ 3 2 (Bytes.zero _)).1
        (reeWrite slowOs [] ⟨0, 0, Bytes.zero paramsSize⟩ 3 2 (Bytes.zero _)).2 := by
  refine (ree_io_told_iff slowOs _ 3 2 (Bytes.zero _) [7, 8] 0 readsFile_slow).mpr ?_
  rw [ReadTellable, readTransfer_slow]
  decide

/-- A host with a file of one byte on which no read succeeds. -/
def brokenOs : Os := fun _ _ => ⟨-1, [], 0, 0, none, false⟩

def brokenCtrl : TzCtlrSpace := ⟨0, 0, Bytes.zero paramsSize⟩

theorem readTransfer_broken : readTransfer brokenOs 3 1024 =
    ⟨0, .failed, [(.read 3 1024, ⟨-1, [], 0, 0, none, false⟩)]⟩ := by
  have hk : 1024 = min 1024 (tzBlockSize - 0 % tzBlockSize) := by decide
  have hfails : (brokenOs 0 (.read 3 1024)).readAmount 1024 = none := by decide
  have hcount : (1024 : UInt32).toNat = 1024 := by decide
  rw [readTransfer, hcount, transfer_step [] (by decide) hk]
  simp only [List.length_nil, hfails, List.nil_append]
  rfl

theorem readsFile_broken : ReadsFile [7] 0 (reeRead brokenOs [] brokenCtrl 3 1024).2 := by
  rw [(reeRead_transfer brokenOs brokenCtrl 3 1024).1, readTransfer_broken,
    readsFile_read, if_pos (by decide)]
  exact readsFile_nil _ _

/-- **A failing read is reported as the end of the file**: the host cannot read the byte that the
file has, and `ree_read` returns 0. -/
theorem failed_read_is_eof :
    ReadsFile [7] 0 (reeRead brokenOs [] brokenCtrl 3 1024).2 ∧
      ReadFailed (reeRead brokenOs [] brokenCtrl 3 1024).2 ∧
      (reeRead brokenOs [] brokenCtrl 3 1024).1.ret = 0 ∧
      ¬ ReadTold [7] 0 1024 (reeRead brokenOs [] brokenCtrl 3 1024).1
        (reeRead brokenOs [] brokenCtrl 3 1024).2 := by
  obtain ⟨hlog, hret, -⟩ := reeRead_transfer brokenOs brokenCtrl 3 1024
  have hzero : (reeRead brokenOs [] brokenCtrl 3 1024).1.ret = 0 := by
    rw [hret, readTransfer_broken]
    simp [readResult, Transfer.whole]
  have hfailed : ReadFailed (reeRead brokenOs [] brokenCtrl 3 1024).2 := by
    rw [hlog, readTransfer_broken]
    exact ⟨3, 1024, _, List.mem_cons_self, by decide⟩
  exact ⟨readsFile_broken, hfailed, hzero, fun htold => htold.not_eof hfailed hzero⟩

end AndixOs.Service
