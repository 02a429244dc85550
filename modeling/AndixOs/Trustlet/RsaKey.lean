/-
# Keys in files

The RSA trustlet keeps a key as the eight numbers of its context, one behind the other as strings with
their `NUL`s.  `writeKey` makes the strings and writes each in a loop, and `readKey` reads the whole file and
takes it apart again.

* The loop asks `write` for the whole length of the string each time, also when a part of it is written.
  After a short write that is more than what is left, and what stands behind the string goes into the file.
* `readKey` has room for a `NUL` behind the file, but does not put it there: the search for the
  end of a string that does not end in the file goes on in what the heap has.

`readKey_writeKey_iff` says when neither shows.
-/
import AndixOs.Lib.Rows
import AndixOs.Tee.Types
import AndixOs.Trustlet.Install
import Mathlib.Algebra.BigOperators.Group.List.Basic
import Mathlib.Logic.Function.Basic

namespace AndixOs.Rsa

open AndixOs.Tee (teeSuccess teeErrorGeneric teeErrorItemNotFound)
open AndixOs.Trustlet (ioResult)

/-! ## 1. Numbers and contexts -/

def teeErrorBadFormat : UInt32 := 0xFFFF0005
def teeErrorNoData : UInt32 := 0xFFFF000B

/-- What the library has for numbers: `mpi_size`; `mpi_write_string` with the room that there is, which gives
what is in the buffer up to the length it returns; and `mpi_read_string`. -/
structure MpiCode (Mpi : Type) where
  size : Mpi → Nat
  writeString : Mpi → Nat → Option (List UInt8)
  readString : List UInt8 → Option Mpi

/-- The numbers of a context. -/
inductive RsaPart where
  | N | E | D | P | Q | DP | DQ | QP
  deriving DecidableEq

/-- `rsa_context`. -/
structure RsaContext (Mpi : Type) where
  part : RsaPart → Mpi
  len : Nat

/-- The numbers in the order in which they are written and read. -/
def keyParts : List RsaPart := [.N, .E, .D, .P, .Q, .DP, .DQ, .QP]

/-! ## 2. Writing -/

section Write

variable {Mpi : Type} (code : MpiCode Mpi)

/-- A byte of the string in `linebuf`, or of what stands behind it. -/
def lineAt (row : List UInt8) (behind : Nat → UInt8) (i : Nat) : UInt8 :=
  (row[i]?).getD (behind (i - row.length))

/-- The loop of `write_mpi_fd`, with the answers of the system: what it returns, and the file.
`none`: it is not done. -/
def writeLoop (row : List UInt8) (behind : Nat → UInt8) :
    List (Option Nat) → Nat → List UInt8 → Option (UInt32 × List UInt8)
  | [], written, out => if row.length ≤ written then some (teeSuccess, out) else none
  | ready :: rest, written, out =>
    if row.length ≤ written then some (teeSuccess, out)
    else
      let ret := ioResult ready row.length
      if ret < 0 then some (teeErrorGeneric, out)
      else
        writeLoop row behind rest (written + ret.toNat)
          (out ++ (List.range' written ret.toNat).map (lineAt row behind))

/-- `write_mpi_fd`. -/
def writeMpiFd (m : Mpi) (behind : Nat → UInt8) (answers : List (Option Nat)) (out : List UInt8) :
    Option (UInt32 × List UInt8) :=
  match code.writeString m (code.size m * 2 + 3) with
  | none => some (teeErrorBadFormat, out)
  | some row =>
    if row.getLast? ≠ some 0 then some (teeErrorBadFormat, out)
    else writeLoop row behind answers 0 out

/-- The numbers that are written until one is not. -/
def writeParts (rsa : RsaContext Mpi) (behind : RsaPart → Nat → UInt8)
    (answers : RsaPart → List (Option Nat)) : List RsaPart → List UInt8 → Option (UInt32 × List UInt8)
  | [], out => some (teeSuccess, out)
  | q :: qs, out =>
    match writeMpiFd code (rsa.part q) (behind q) (answers q) out with
    | none => none
    | some (ret, out') => if ret ≠ teeSuccess then some (teeErrorGeneric, out') else writeParts rsa behind answers qs out'

/-- `writeKey` to a fresh file, with what stands behind `linebuf` and what the system answers for each of
the numbers. -/
def writeKey (opened : Bool) (rsa : RsaContext Mpi) (behind : RsaPart → Nat → UInt8)
    (answers : RsaPart → List (Option Nat)) : Option (UInt32 × List UInt8) :=
  if ¬ opened then some (teeErrorItemNotFound, [])
  else writeParts code rsa behind answers keyParts []

end Write

/-! ## 3. Reading -/

/-- What `readKey` finds: the file, if it can be opened; whether it can be examined; the block that
`malloc` gives; how much `read` is ready to move; and the heap, up to the end of the memory. -/
structure KeyInput where
  file : Option (List UInt8)
  examined : Bool
  block : Option Nat
  ready : Option Nat
  heap : Mem
  top : Nat
  fits : ∀ a ∈ block, ∀ l ∈ file, a + l.length + 1 ≤ top

section Read

variable {Mpi : Type} (code : MpiCode Mpi)

/-- `read_mpi_buf`: the number and where it goes on, or an error, with what `strlen` and
`mpi_read_string` read.  `none`: there is no `NUL` up to the end of the memory. -/
def readMpiBuf (m : Mem) (top stop p : Nat) : Option (Except UInt32 (Mpi × Nat)) × List Access :=
  match strAt m (top - p) p with
  | none => (none, [.read p (top - p + 1)])
  | some cs =>
    let eos := p + cs.length + 1
    if stop ≤ eos then (some (.error teeErrorBadFormat), [.read p (cs.length + 1)])
    else
      match code.readString cs with
      | none => (some (.error teeErrorBadFormat), [.read p (cs.length + 1)])
      | some x => (some (.ok (x, eos)), [.read p (cs.length + 1)])

/-- The numbers that are read until one is not. -/
def readParts (m : Mem) (top stop : Nat) :
    List RsaPart → Nat → (RsaPart → Mpi) → Option (Except UInt32 (RsaPart → Mpi)) × List Access
  | [], _, part => (some (.ok part), [])
  | q :: qs, p, part =>
    let r := readMpiBuf code m top stop p
    match r.1 with
    | none => (none, r.2)
    | some (.error _) => (some (.error teeErrorGeneric), r.2)
    | some (.ok (x, eos)) =>
      let rest := readParts m top stop qs eos (Function.update part q x)
      (rest.1, r.2 ++ rest.2)

/-- `readKey`: the context when it succeeds, and the accesses to the contents of the file. -/
def readKey (inp : KeyInput) (rsa : RsaContext Mpi) :
    Option (Except UInt32 (RsaContext Mpi)) × List Access :=
  match inp.file with
  | none => (some (.error teeErrorItemNotFound), [])
  | some l =>
    if ¬ inp.examined then (some (.error teeErrorItemNotFound), [])
    else if l.length = 0 then (some (.error teeErrorNoData), [])
    else
      match inp.block with
      | none => (some (.error teeErrorNoData), []) -- `read` refuses the address
      | some filebuf =>
        let rlen := ioResult inp.ready l.length
        let m := putRow inp.heap filebuf (l.take rlen.toNat)
        if rlen ≠ l.length then (some (.error teeErrorNoData), [])
        else
          let r := readParts code m inp.top (filebuf + l.length + 1) keyParts filebuf rsa.part
          (r.1.map fun e => e.map fun part => ⟨part, code.size (part .N)⟩, r.2)

end Read

/-! ## 4. What a loop writes -/

variable {Mpi : Type} {code : MpiCode Mpi} {rsa : RsaContext Mpi} {row out l rest : List UInt8}
  {behind : Nat → UInt8} {counts : List Nat} {len written : Nat}

/-- How far a loop gets that is asked to write `len` bytes each time, with these counts. -/
def reached (len : Nat) : List Nat → Nat → Nat
  | [], written => written
  | c :: cs, written => if len ≤ written then written else reached len cs (written + min c len)

/-- The counts, one after the other, come to exactly `len` at some time. -/
def AddsUp (counts : List Nat) (len : Nat) : Prop := ∃ k, ((counts.take k).map (min · len)).sum = len

theorem le_reached : ∀ {counts : List Nat} {written : Nat}, written ≤ reached len counts written
  | [], _ => Nat.le_refl _
  | c :: cs, written => by
    rw [reached]
    split
    · exact Nat.le_refl _
    · exact (Nat.le_add_right _ _).trans le_reached

/-- **A loop that ends at the end of the string**: the counts add up to it. -/
theorem reached_eq_iff : ∀ {counts : List Nat} {written : Nat}, reached len counts written = len ↔
    ∃ k, written + ((counts.take k).map (min · len)).sum = len
  | [], written => by simp [reached]
  | c :: cs, written => by
    rw [reached]
    split
    · rename_i hle
      constructor
      · intro h
        exact ⟨0, h⟩
      · rintro ⟨k, hk⟩
        omega
    · rename_i hlt
      rw [reached_eq_iff]
      constructor
      · rintro ⟨k, hk⟩
        exact ⟨k + 1, by simpa [Nat.add_assoc] using hk⟩
      · rintro ⟨k, hk⟩
        cases k with
        | zero => exact absurd hk (by simp; omega)
        | succ k => exact ⟨k, by simpa [Nat.add_assoc] using hk⟩

theorem addsUp_iff : AddsUp counts len ↔ reached len counts 0 = len := by
  rw [reached_eq_iff, AddsUp]
  simp only [Nat.zero_add]

instance : Decidable (AddsUp counts len) := decidable_of_iff _ addsUp_iff.symm

/-- As many counts as there are bytes are enough, if all of them are positive. -/
theorem length_le_reached (hlen : 0 < len) : ∀ {counts : List Nat} {written : Nat}, (∀ c ∈ counts, 0 < c) →
    len ≤ written + counts.length → len ≤ reached len counts written
  | [], _, _, h => h
  | c :: cs, written, hpos, h => by
    have hc := hpos c List.mem_cons_self
    rw [List.length_cons] at h
    rw [reached]
    split
    · assumption
    · exact length_le_reached hlen (fun d hd => hpos d (List.mem_cons_of_mem c hd)) (by omega)

/-- **The loop** of `write_mpi_fd`. -/
theorem writeLoop_eq : ∀ {counts : List Nat} {written : Nat} {out : List UInt8},
    row.length ≤ reached row.length counts written →
      writeLoop row behind (counts.map some) written out =
        some (teeSuccess, out ++
          (List.range' written (reached row.length counts written - written)).map (lineAt row behind))
  | [], written, out, h => by
    rw [reached] at h
    simp [writeLoop, reached, h]
  | c :: cs, written, out, h => by
    rw [reached] at h ⊢
    rw [List.map_cons, writeLoop]
    split
    · simp
    · rename_i hlt
      rw [if_neg hlt] at h
      have hret : ioResult (some c) row.length = ((min c row.length : Nat) : Int) := by simp [ioResult]
      have hreached : written + min c row.length ≤ reached row.length cs (written + min c row.length) :=
        le_reached
      have hsplit : reached row.length cs (written + min c row.length) - written =
          min c row.length + (reached row.length cs (written + min c row.length) -
            (written + min c row.length)) := by omega
      dsimp only
      rw [hret, if_neg (by omega), Int.toNat_natCast, writeLoop_eq h, hsplit, ← List.range'_append_1,
        List.map_append, List.append_assoc]

/-- The string and what stands behind it. -/
theorem map_lineAt (h : row.length ≤ len) : (List.range' 0 len).map (lineAt row behind) =
    row ++ (List.range (len - row.length)).map behind := by
  obtain ⟨k, rfl⟩ := Nat.exists_eq_add_of_le h
  rw [← List.range'_append_1, List.map_append, Nat.add_sub_cancel_left, Nat.zero_add]
  congr 1
  · refine List.ext_getElem (by simp) ?_
    intro i hi hi'
    simp [lineAt, hi']
  · rw [List.range'_eq_map_range, List.map_map]
    refine List.map_congr_left fun i _ => ?_
    simp [lineAt]

/-! ## 5. The file -/

/-- A number that the library writes as a string and reads back. -/
def Lossless (code : MpiCode Mpi) (x : Mpi) : Prop :=
  ∃ s, 0 ∉ s ∧ code.writeString x (code.size x * 2 + 3) = some (s ++ [0]) ∧ code.readString s = some x

/-- The length of its string, with the `NUL`. -/
def lineLength (code : MpiCode Mpi) (x : Mpi) : Nat :=
  ((code.writeString x (code.size x * 2 + 3)).getD []).length

/-- The strings of the numbers of a context. -/
structure Spelled (code : MpiCode Mpi) (rsa : RsaContext Mpi) (str : RsaPart → List UInt8) : Prop where
  nul : ∀ q, 0 ∉ str q
  writes : ∀ q, code.writeString (rsa.part q) (code.size (rsa.part q) * 2 + 3) = some (str q ++ [0])
  reads : ∀ q, code.readString (str q) = some (rsa.part q)

variable {str : RsaPart → List UInt8} {answers : RsaPart → List Nat} {stack : RsaPart → Nat → UInt8}
  {qs : List RsaPart} {q : RsaPart}

theorem exists_spelled (h : ∀ q, Lossless code (rsa.part q)) : ∃ str, Spelled code rsa str := by
  choose str hstr using h
  exact ⟨str, fun q => (hstr q).1, fun q => (hstr q).2.1, fun q => (hstr q).2.2⟩

theorem Spelled.lineLength (h : Spelled code rsa str) (q : RsaPart) :
    lineLength code (rsa.part q) = (str q).length + 1 := by
  rw [Rsa.lineLength, h.writes, Option.getD_some, List.length_append, List.length_singleton]

/-- What a number leaves in the file behind its string. -/
def tail (str : RsaPart → List UInt8) (answers : RsaPart → List Nat) (stack : RsaPart → Nat → UInt8)
    (q : RsaPart) : List UInt8 :=
  (List.range (reached ((str q).length + 1) (answers q) 0 - ((str q).length + 1))).map (stack q)

/-- What the numbers leave in the file. -/
def rows (str : RsaPart → List UInt8) (answers : RsaPart → List Nat) (stack : RsaPart → Nat → UInt8)
    (qs : List RsaPart) : List UInt8 :=
  qs.flatMap fun q => str q ++ 0 :: tail str answers stack q

/-- Each of the loops comes to its end. -/
def Enough (str : RsaPart → List UInt8) (answers : RsaPart → List Nat) : Prop :=
  ∀ q, (str q).length + 1 ≤ reached ((str q).length + 1) (answers q) 0

/-- **What is written**, if the system writes something each time. -/
theorem writeParts_eq (h : Spelled code rsa str) (henough : Enough str answers) :
    ∀ {qs : List RsaPart} {out : List UInt8},
      writeParts code rsa stack (fun q => (answers q).map some) qs out =
        some (teeSuccess, out ++ rows str answers stack qs)
  | [], out => by simp [writeParts, rows]
  | q :: qs, out => by
    have hlen : (str q ++ [0]).length = (str q).length + 1 := by simp
    have hends : (str q ++ [0]).length ≤ reached (str q ++ [0]).length (answers q) 0 := hlen ▸ henough q
    have hlast : (str q ++ [0]).getLast? = some 0 := List.getLast?_concat
    have hone : writeMpiFd code (rsa.part q) (stack q) ((answers q).map some) out =
        some (teeSuccess, out ++ (str q ++ 0 :: tail str answers stack q)) := by
      rw [writeMpiFd, h.writes]
      dsimp only
      rw [if_neg (not_not.mpr hlast), writeLoop_eq hends, Nat.sub_zero, map_lineAt hends, hlen,
        List.append_assoc, List.singleton_append]
      rfl
    rw [writeParts, hone]
    dsimp only
    rw [if_neg (not_not.mpr rfl), writeParts_eq h henough, rows, rows, List.flatMap_cons, List.append_assoc]

/-- A loop that ends at the end of the string leaves nothing behind it. -/
theorem tail_eq_nil (h : AddsUp (answers q) ((str q).length + 1)) : tail str answers stack q = [] := by
  rw [tail, addsUp_iff.mp h, Nat.sub_self]
  rfl

/-- Any other one does. -/
theorem tail_eq_cons (stack : RsaPart → Nat → UInt8) (henough : Enough str answers) (h : ¬ AddsUp (answers q) ((str q).length + 1)) :
    ∃ rest, tail str answers stack q = stack q 0 :: rest := by
  have hne : reached ((str q).length + 1) (answers q) 0 ≠ (str q).length + 1 := addsUp_iff.not.mp h
  have hle := henough q
  obtain ⟨k, hk⟩ : ∃ k, reached ((str q).length + 1) (answers q) 0 - ((str q).length + 1) = k + 1 :=
    ⟨reached ((str q).length + 1) (answers q) 0 - ((str q).length + 1) - 1, by omega⟩
  exact ⟨_, by rw [tail, hk, List.range_succ_eq_map, List.map_cons]⟩

/-! ## 6. Reading it back -/

variable {m : Mem} {top stop p x : Nat} {part : RsaPart → Mpi}

/-- The strings of the numbers, with nothing between them. -/
def plainRows (str : RsaPart → List UInt8) (qs : List RsaPart) : List UInt8 := qs.flatMap fun q => str q ++ [0]

/-- The numbers that have been read. -/
def assigned (rsa : RsaContext Mpi) (part : RsaPart → Mpi) (qs : List RsaPart) : RsaPart → Mpi :=
  qs.foldl (fun part q => Function.update part q (rsa.part q)) part

theorem assigned_keyParts : assigned rsa part keyParts = rsa.part := by
  funext q
  cases q <;> rfl

/-- A string that ends before the end of the block, and can be read. -/
theorem readMpiBuf_of_held {s : List UInt8} {v : Mpi} (hheld : HoldsAt m p (s ++ 0 :: rest)) (hnul : 0 ∉ s)
    (hread : code.readString s = some v) (hstop : p + s.length + 1 < stop) (htop : stop ≤ top) :
    readMpiBuf code m top stop p = (some (.ok (v, p + s.length + 1)), [.read p (s.length + 1)]) := by
  rw [readMpiBuf, strAt_of_terminated hheld hnul (by omega)]
  dsimp only
  rw [if_neg (by omega), hread]

/-- **Numbers that follow one another** are read, and it goes on behind them. -/
theorem readParts_plainRows (h : Spelled code rsa str) (htop : stop ≤ top) :
    ∀ (qs qs' : List RsaPart) {p : Nat} (part : RsaPart → Mpi),
      HoldsAt m p (plainRows str qs ++ rest) → p + (plainRows str qs).length < stop →
        (readParts code m top stop (qs ++ qs') p part).1 =
          (readParts code m top stop qs' (p + (plainRows str qs).length) (assigned rsa part qs)).1
  | [], qs', p, part, _, _ => rfl
  | q :: qs, qs', p, part, hheld, hlt => by
    have hcons : plainRows str (q :: qs) = str q ++ 0 :: plainRows str qs := by simp [plainRows]
    have hlen : (plainRows str (q :: qs)).length = (str q).length + 1 + (plainRows str qs).length := by
      rw [hcons, List.length_append, List.length_cons]
      omega
    rw [hcons, List.append_assoc, List.cons_append] at hheld
    rw [hlen] at hlt ⊢
    have hrest : HoldsAt m (p + (str q).length + 1) (plainRows str qs ++ rest) :=
      (holdsAt_append.mp hheld).2.2
    rw [List.cons_append, readParts,
      readMpiBuf_of_held hheld (h.nul q) (h.reads q) (by omega) htop]
    dsimp only
    rw [readParts_plainRows h htop qs qs' _ hrest (by omega), ← Nat.add_assoc, ← Nat.add_assoc]
    rfl

/-- Numbers that have been read: the first one, and the others. -/
theorem readParts_cons_ok {part' : RsaPart → Mpi}
    (h : (readParts code m top stop (q :: qs) p part).1 = some (.ok part')) :
    ∃ v eos, (readMpiBuf code m top stop p).1 = some (.ok (v, eos)) ∧
      (readParts code m top stop qs eos (Function.update part q v)).1 = some (.ok part') := by
  rw [readParts] at h
  dsimp only at h
  split at h
  · exact nomatch h
  · exact nomatch h
  · rename_i v eos hbuf
    exact ⟨v, eos, hbuf, h⟩

/-- A number that has been read: its string ends before the end of the block. -/
theorem readMpiBuf_ok {v : Mpi} {eos : Nat} (h : (readMpiBuf code m top stop p).1 = some (.ok (v, eos))) :
    ∃ cs, strAt m (top - p) p = some cs ∧ eos = p + cs.length + 1 ∧ eos < stop ∧
      code.readString cs = some v := by
  rw [readMpiBuf] at h
  split at h
  · exact nomatch h
  rename_i cs hcs
  dsimp only at h
  split at h
  · exact nomatch h
  rename_i hlt
  split at h
  · exact nomatch h
  rename_i v' hread
  obtain ⟨rfl, rfl⟩ : v' = v ∧ p + cs.length + 1 = eos := by simpa using h
  exact ⟨cs, hcs, rfl, Nat.not_le.mp hlt, hread⟩

/-- **A byte that begins no number**, where the next one should be. -/
theorem readParts_bad (hbad : ∀ s, code.readString (0x7A :: s) = none) (hbyte : m p = 0x7A)
    (part' : RsaPart → Mpi) : (readParts code m top stop (q :: qs) p part).1 ≠ some (.ok part') := by
  intro h
  obtain ⟨v, eos, hbuf, -⟩ := readParts_cons_ok h
  obtain ⟨cs, hcs, -, -, hread⟩ := readMpiBuf_ok hbuf
  cases hn : top - p with
  | zero =>
    rw [hn, strAt] at hcs
    exact absurd hcs (by simp)
  | succ n =>
    have hne : m p ≠ 0 := by
      rw [hbyte]
      decide
    rw [hn, strAt, if_neg hne, hbyte, Option.map_eq_some_iff] at hcs
    obtain ⟨s, -, rfl⟩ := hcs
    rw [hbad] at hread
    exact absurd hread (by simp)

/-! ## 7. What is read -/

/-- What is read of a number, and of those behind it if it is read. -/
theorem touched_readParts : Touched x (readParts code m top stop (q :: qs) p part).2 ↔
    Touched x (readMpiBuf code m top stop p).2 ∨ ∃ v eos,
      (readMpiBuf code m top stop p).1 = some (.ok (v, eos)) ∧
        Touched x (readParts code m top stop qs eos (Function.update part q v)).2 := by
  rw [readParts]
  dsimp only
  cases hbuf : (readMpiBuf code m top stop p).1 with
  | none => simp
  | some r =>
    cases r with
    | error e => simp
    | ok y =>
      obtain ⟨v, eos⟩ := y
      simp [touched_append]

/-- What is read of a number begins where it begins. -/
theorem le_of_touched_readMpiBuf (h : Touched x (readMpiBuf code m top stop p).2) : p ≤ x := by
  rw [readMpiBuf] at h
  split at h
  · exact (h.resolve_right id).1
  dsimp only at h
  split at h
  · exact (h.resolve_right id).1
  split at h
  · exact (h.resolve_right id).1
  · exact (h.resolve_right id).1

theorem le_of_touched : ∀ {qs : List RsaPart} {p : Nat} {part : RsaPart → Mpi},
    Touched x (readParts code m top stop qs p part).2 → p ≤ x
  | [], _, _, h => h.elim
  | q :: qs, p, part, h => by
    rcases touched_readParts.mp h with hfirst | ⟨v, eos, hbuf, hrest⟩
    · exact le_of_touched_readMpiBuf hfirst
    · obtain ⟨cs, -, heos, -, -⟩ := readMpiBuf_ok hbuf
      have hle := le_of_touched hrest
      omega

/-- **A string that does not end in the file**: what is read of it stays in the block exactly if the byte
behind the file is a `NUL`, and it is refused in any case. -/
theorem readMpiBuf_unterminated (code : MpiCode Mpi) (hheld : HoldsAt m p l) (hnul : 0 ∉ l) (hstop : p + l.length + 1 = stop)
    (htop : stop ≤ top) :
    (∀ y, (readMpiBuf code m top stop p).1 ≠ some (.ok y)) ∧
      ((∀ x, Touched x (readMpiBuf code m top stop p).2 → x < stop) ↔ m (stop - 1) = 0) := by
  obtain ⟨k, hk⟩ : ∃ k, top - p = l.length + (k + 1) := ⟨top - p - l.length - 1, by omega⟩
  have hend : p + l.length = stop - 1 := by omega
  have hsearch := strAt_of_held (k := k + 1) hheld hnul
  rw [hend, strAt, ← hk] at hsearch
  constructor
  · rintro ⟨v, eos⟩ hok
    obtain ⟨cs, hcs, heos, hlt, -⟩ := readMpiBuf_ok hok
    rw [hcs, eq_comm, Option.map_eq_some_iff] at hsearch
    obtain ⟨tail, -, rfl⟩ := hsearch
    rw [List.length_append] at heos
    omega
  · by_cases hzero : m (stop - 1) = 0
    · rw [if_pos hzero, Option.map_some, List.append_nil] at hsearch
      refine iff_of_true (fun x h => ?_) hzero
      rw [readMpiBuf, hsearch] at h
      dsimp only at h
      rw [if_pos (by omega)] at h
      simp only [Touched, or_false] at h
      omega
    · rw [if_neg hzero, Option.map_map] at hsearch
      refine iff_of_false (fun h => ?_) hzero
      -- the search gets to the byte behind the block
      have hbehind : Touched stop (readMpiBuf code m top stop p).2 := by
        rw [readMpiBuf]
        cases hrest : strAt m k (stop - 1 + 1) with
        | none =>
          rw [hrest, Option.map_none] at hsearch
          rw [hsearch]
          simp only [Touched, or_false]
          omega
        | some cs =>
          rw [hrest, Option.map_some] at hsearch
          rw [hsearch]
          dsimp only [Function.comp]
          rw [if_pos (by simp only [List.length_append]; omega)]
          simp only [Touched, or_false, List.length_append, List.length_cons]
          omega
      exact absurd (h stop hbehind) (Nat.lt_irrefl stop)

/-- **What the numbers read** stays in the block, of which the last byte is behind the file. -/
theorem readParts_inside (code : MpiCode Mpi) (htop : stop ≤ top) : ∀ (qs : List RsaPart) {p : Nat}
    (part : RsaPart → Mpi) {l : List UInt8}, HoldsAt m p l → p + l.length + 1 = stop →
      ((∀ x, Touched x (readParts code m top stop qs p part).2 → x < stop) ↔
        m (stop - 1) = 0 ∨ qs.length ≤ (terminated l).length ∨
          ∃ s ∈ terminated l, code.readString s = none)
  | [], _, _, _, _, _ => iff_of_true (fun _ h => h.elim) (Or.inr (Or.inl (Nat.zero_le _)))
  | q :: qs, p, part, l, hheld, hstop => by
    by_cases hnul : 0 ∈ l
    · obtain ⟨s, l', rfl, hs⟩ := List.eq_append_cons_of_mem hnul
      rw [List.length_append, List.length_cons] at hstop
      rw [terminated_append hs]
      cases hread : code.readString s with
      | none =>
        refine iff_of_true (fun x h => ?_) (Or.inr (Or.inr ⟨s, List.mem_cons_self, hread⟩))
        have hbuf : readMpiBuf code m top stop p =
            (some (.error teeErrorBadFormat), [.read p (s.length + 1)]) := by
          rw [readMpiBuf, strAt_of_terminated hheld hs (by omega)]
          dsimp only
          rw [if_neg (by omega), hread]
        rw [touched_readParts, hbuf] at h
        simp only [Touched, or_false] at h
        rcases h with h | ⟨_, _, h, -⟩
        · omega
        · exact absurd h (by simp)
      | some v =>
        have hbuf : readMpiBuf code m top stop p =
            (some (.ok (v, p + s.length + 1)), [.read p (s.length + 1)]) :=
          readMpiBuf_of_held hheld hs hread (by omega) htop
        have hrest : HoldsAt m (p + s.length + 1) l' := (holdsAt_append.mp hheld).2.2
        have hnext := readParts_inside code htop qs (Function.update part q v) hrest (by omega)
        have hsame : (∀ x, Touched x (readParts code m top stop (q :: qs) p part).2 → x < stop) ↔
            ∀ x, Touched x (readParts code m top stop qs (p + s.length + 1)
              (Function.update part q v)).2 → x < stop := by
          constructor
          · intro h x hx
            exact h x (touched_readParts.mpr (Or.inr ⟨v, _, congrArg Prod.fst hbuf, hx⟩))
          · intro h x hx
            rcases touched_readParts.mp hx with hfirst | ⟨v', eos, hok, hx'⟩
            · rw [hbuf] at hfirst
              simp only [Touched, or_false] at hfirst
              omega
            · rw [hbuf] at hok
              obtain ⟨rfl, rfl⟩ : v = v' ∧ p + s.length + 1 = eos := by simpa using hok
              exact h x hx'
        rw [hsame, hnext, List.length_cons, List.length_cons, Nat.add_le_add_iff_right]
        simp [hread]
    · obtain ⟨hno, hinside⟩ := readMpiBuf_unterminated code hheld hnul hstop htop
      have hsame : ∀ x, Touched x (readParts code m top stop (q :: qs) p part).2 ↔
          Touched x (readMpiBuf code m top stop p).2 := by
        intro x
        rw [touched_readParts]
        refine or_iff_left ?_
        rintro ⟨v, eos, hok, -⟩
        exact hno (v, eos) hok
      rw [terminated_of_not_mem hnul]
      simp [hsame, hinside]

/-- **Numbers that are read** are strings that end in the file. -/
theorem length_le_terminated (htop : stop ≤ top) : ∀ {qs : List RsaPart} {p : Nat} {part part' : RsaPart → Mpi}
    {l : List UInt8}, HoldsAt m p l → p + l.length + 1 = stop →
      (readParts code m top stop qs p part).1 = some (.ok part') → qs.length ≤ (terminated l).length
  | [], _, _, _, _, _, _, _ => Nat.zero_le _
  | q :: qs, p, part, part', l, hheld, hstop, h => by
    obtain ⟨v, eos, hbuf, hrest⟩ := readParts_cons_ok h
    by_cases hnul : 0 ∈ l
    · obtain ⟨s, l', rfl, hs⟩ := List.eq_append_cons_of_mem hnul
      obtain ⟨cs, hcs, rfl, -, -⟩ := readMpiBuf_ok hbuf
      rw [List.length_append, List.length_cons] at hstop
      rw [strAt_of_terminated hheld hs (by omega)] at hcs
      obtain rfl : s = cs := by simpa using hcs
      have hheld' : HoldsAt m (p + s.length + 1) l' := (holdsAt_append.mp hheld).2.2
      rw [terminated_append hs, List.length_cons, List.length_cons]
      exact Nat.succ_le_succ (length_le_terminated htop hheld' (by omega) hrest)
    · exact absurd hbuf ((readMpiBuf_unterminated code hheld hnul hstop htop).1 (v, eos))

/-! ## 8. A key and its file -/

variable {inp : KeyInput} {filebuf : Nat}

/-- **`readKey`**, when everything up to the reading of the numbers goes well. -/
theorem readKey_eq (hfile : inp.file = some l) (hblock : inp.block = some filebuf)
    (hexamined : inp.examined = true) (hne : l ≠ []) (hready : ioResult inp.ready l.length = l.length) :
    let r := readParts code (putRow inp.heap filebuf l) inp.top (filebuf + l.length + 1) keyParts filebuf rsa.part
    readKey code inp rsa =
      (r.1.map fun e => e.map fun part => ⟨part, code.size (part .N)⟩, r.2) := by
  intro r
  have hlen : l.length ≠ 0 := fun h => hne (List.length_eq_zero_iff.mp h)
  rw [readKey, hfile]
  dsimp only
  rw [if_neg (by simp [hexamined]), if_neg hlen, hblock]
  dsimp only
  rw [if_neg (not_not.mpr hready), hready, Int.toNat_natCast, List.take_length]

/-- In any other case nothing is read. -/
theorem readKey_refused (code : MpiCode Mpi) (rsa : RsaContext Mpi) (hfile : inp.file = some l) (h : inp.examined = true → l ≠ [] → inp.block ≠ none →
    ioResult inp.ready l.length ≠ l.length) : ∃ e, readKey code inp rsa = (some (.error e), []) := by
  rw [readKey, hfile]
  dsimp only
  split
  · exact ⟨_, rfl⟩
  rename_i hexamined
  split
  · exact ⟨_, rfl⟩
  rename_i hlen
  cases hblock : inp.block with
  | none => exact ⟨_, rfl⟩
  | some filebuf =>
    dsimp only
    split
    · exact ⟨_, rfl⟩
    rename_i hready
    have hne : l ≠ [] := by
      rintro rfl
      exact hlen rfl
    exact absurd (not_not.mp hready) (h (not_not.mp hexamined) hne (by simp [hblock]))

/-- A key that is read has the length of its first number. -/
theorem readKey_len {rsa' : RsaContext Mpi} (hfile : inp.file = some l) (hblock : inp.block = some filebuf)
    (h : (readKey code inp rsa).1 = some (.ok rsa')) :
    inp.examined = true ∧ l ≠ [] ∧ ioResult inp.ready l.length = l.length ∧
      rsa'.len = code.size (rsa'.part .N) ∧
      (readParts code (putRow inp.heap filebuf l) inp.top (filebuf + l.length + 1) keyParts filebuf
        rsa.part).1 = some (.ok rsa'.part) := by
  by_cases hgood : inp.examined = true ∧ l ≠ [] ∧ ioResult inp.ready l.length = l.length
  · obtain ⟨hexamined, hne, hready⟩ := hgood
    rw [readKey_eq hfile hblock hexamined hne hready] at h
    dsimp only at h
    cases hparts : (readParts code (putRow inp.heap filebuf l) inp.top (filebuf + l.length + 1) keyParts
        filebuf rsa.part).1 with
    | none =>
      rw [hparts] at h
      exact nomatch h
    | some r =>
      cases r with
      | error e =>
        rw [hparts] at h
        exact nomatch h
      | ok part =>
        rw [hparts] at h
        obtain rfl : (⟨part, code.size (part .N)⟩ : RsaContext Mpi) = rsa' := by
          simpa [Except.map] using h
        exact ⟨hexamined, hne, hready, rfl, rfl⟩
  · obtain ⟨e, he⟩ := readKey_refused code rsa hfile
      fun hexamined hne _ hready => hgood ⟨hexamined, hne, hready⟩
    rw [he] at h
    exact nomatch h

theorem rows_append {qs qs' : List RsaPart} :
    rows str answers stack (qs ++ qs') = rows str answers stack qs ++ rows str answers stack qs' :=
  List.flatMap_append

/-- Rows with nothing behind the strings. -/
theorem rows_eq_plainRows : ∀ {qs : List RsaPart}, (∀ q ∈ qs, AddsUp (answers q) ((str q).length + 1)) →
    rows str answers stack qs = plainRows str qs
  | [], _ => rfl
  | q :: qs, h => by
    have hrest : rows str answers stack qs = plainRows str qs :=
      rows_eq_plainRows fun q' hq' => h q' (List.mem_cons_of_mem q hq')
    rw [rows, List.flatMap_cons, tail_eq_nil (h q List.mem_cons_self), plainRows, List.flatMap_cons]
    exact congrArg (str q ++ [0] ++ ·) hrest

/-- The key is restored from its file, whatever stands on the stack and on the heap, with these counts. -/
def Restores (code : MpiCode Mpi) (rsa : RsaContext Mpi) (answers : RsaPart → List Nat) : Prop :=
  ∀ stack, ∃ file, writeKey code true rsa stack (fun q => (answers q).map some) = some (teeSuccess, file) ∧
    ∀ inp before, inp.file = some file → inp.examined = true → inp.block ≠ none →
      ioResult inp.ready file.length = file.length → (readKey code inp before).1 = some (.ok rsa)

/-- A reader of a file. -/
def plainInput (file : List UInt8) : KeyInput where
  file := some file
  examined := true
  block := some 0
  ready := some file.length
  heap _ := 0
  top := file.length + 1
  fits := by
    rintro a ha l hl
    obtain rfl : 0 = a := by simpa using ha
    obtain rfl : file = l := by simpa using hl
    omega

/-- **A key is restored** if the loops of all numbers but the last one end at the ends of their strings. -/
theorem restores_of_addsUp (h : Spelled code rsa str) (henough : Enough str answers)
    (hcounts : ∀ q, q ≠ .QP → AddsUp (answers q) ((str q).length + 1))
    (hlen : rsa.len = code.size (rsa.part .N)) : Restores code rsa answers := by
  intro stack
  have hkeys : keyParts = [.N, .E, .D, .P, .Q, .DP, .DQ] ++ [.QP] := rfl
  have hfirst : ∀ q ∈ ([.N, .E, .D, .P, .Q, .DP, .DQ] : List RsaPart), q ≠ .QP := by decide
  have hrows : rows str answers stack keyParts = plainRows str keyParts ++ tail str answers stack .QP := by
    have hlast : rows str answers stack [.QP] = plainRows str [.QP] ++ tail str answers stack .QP := by
      simp [rows, plainRows]
    rw [hkeys, rows_append, rows_eq_plainRows fun q hq => hcounts q (hfirst q hq), hlast,
      ← List.append_assoc, plainRows, plainRows, plainRows, List.flatMap_append]
  refine ⟨rows str answers stack keyParts, ?_, ?_⟩
  · rw [writeKey, if_neg (by decide), writeParts_eq h henough, List.nil_append]
  · intro inp before hfile hexamined hblock hready
    obtain ⟨filebuf, hfilebuf⟩ := Option.ne_none_iff_exists'.mp hblock
    have hfits := inp.fits filebuf hfilebuf _ hfile
    have hheld := holdsAt_iff_rowAt.mpr
      (rowAt_putRow (l := rows str answers stack keyParts) (m := inp.heap) (a := filebuf))
    have hne : rows str answers stack keyParts ≠ [] := by
      rw [hrows]
      simp [plainRows, keyParts]
    rw [readKey_eq hfile hfilebuf hexamined hne hready]
    rw [hrows] at hheld hfits ⊢
    have hread := readParts_plainRows h hfits keyParts [] before.part hheld
      (by rw [List.length_append]; omega)
    rw [List.append_nil, readParts, assigned_keyParts] at hread
    dsimp only
    rw [hread, Option.map_some, Except.map, ← hlen]

/-- A key that was restored: what was read, by a plain reader. -/
theorem parts_of_restores (h : Spelled code rsa str) (henough : Enough str answers)
    (hrestores : Restores code rsa answers) (stack : RsaPart → Nat → UInt8) :
    let file := rows str answers stack keyParts
    rsa.len = code.size (rsa.part .N) ∧
      (readParts code (putRow (fun _ => 0) 0 file) (file.length + 1) (0 + file.length + 1) keyParts 0
        rsa.part).1 = some (.ok rsa.part) := by
  intro file
  obtain ⟨written, hwrite, hread⟩ := hrestores stack
  rw [writeKey, if_neg (by decide), writeParts_eq h henough, List.nil_append] at hwrite
  obtain rfl : file = written := by simpa using hwrite
  have hready : ioResult (plainInput file).ready file.length = file.length := by simp [ioResult, plainInput]
  have hok := hread (plainInput file) rsa rfl rfl (by simp [plainInput]) hready
  obtain ⟨-, -, -, hlen, hparts⟩ := readKey_len rfl rfl hok
  exact ⟨hlen, hparts⟩

/-- **A loop that ends behind its string** leaves something that no number begins with. -/
theorem addsUp_of_restores (hbad : ∀ s, code.readString (0x7A :: s) = none) (h : Spelled code rsa str)
    (henough : Enough str answers) (hrestores : Restores code rsa answers) (hq : q ≠ .QP) :
    AddsUp (answers q) ((str q).length + 1) := by
  classical
  by_contra hno
  -- the first number that leaves something, and the one behind it
  have hmem : q ∈ ([.N, .E, .D, .P, .Q, .DP, .DQ] : List RsaPart) := by cases q <;> simp at hq ⊢
  obtain ⟨r, hr⟩ : ∃ r, ([.N, .E, .D, .P, .Q, .DP, .DQ] : List RsaPart).find?
      (fun q => decide (¬ AddsUp (answers q) ((str q).length + 1))) = some r :=
    Option.isSome_iff_exists.mp (List.find?_isSome.mpr ⟨q, hmem, by simpa using hno⟩)
  obtain ⟨hover, pre, post, hsplit, hpre⟩ := List.find?_eq_some_iff_append.mp hr
  have hover : ¬ AddsUp (answers r) ((str r).length + 1) := by simpa using hover
  have hpre : ∀ q ∈ pre, AddsUp (answers q) ((str q).length + 1) := by simpa using hpre
  obtain ⟨next, last, hnext⟩ : ∃ next last, post ++ [.QP] = next :: last := by cases post <;> simp
  have hkeys : keyParts = (pre ++ [r]) ++ next :: last := by
    rw [← hnext, List.append_assoc, List.singleton_append, ← List.cons_append, ← List.append_assoc,
      ← hsplit]
    rfl
  -- what stands behind its string begins no number
  obtain ⟨-, hparts⟩ := parts_of_restores h henough hrestores (fun _ _ => 0x7A)
  obtain ⟨behind, htail⟩ := tail_eq_cons (fun _ _ => 0x7A) henough hover
  have hfile : rows str answers (fun _ _ => 0x7A) keyParts = plainRows str (pre ++ [r]) ++
      0x7A :: (behind ++ rows str answers (fun _ _ => 0x7A) (next :: last)) := by
    have hone : rows str answers (fun _ _ => 0x7A) [r] = str r ++ 0 :: 0x7A :: behind := by
      rw [rows, List.flatMap_singleton, htail]
    rw [hkeys, rows_append, rows_append, rows_eq_plainRows hpre, hone]
    simp [plainRows]
  have hheld := holdsAt_iff_rowAt.mpr
    (rowAt_putRow (l := rows str answers (fun _ _ => 0x7A) keyParts) (m := fun _ => 0) (a := 0))
  rw [hfile] at hheld hparts
  rw [hkeys, readParts_plainRows h (Nat.le_of_eq (by omega)) _ _ _ hheld
    (by rw [List.length_append, List.length_cons]; omega)] at hparts
  exact readParts_bad hbad (holdsAt_append.mp hheld).2.1 _ hparts

/-- **A key and its file.**  With counts that are positive and enough of them, the key is restored from
what was written, whatever stands on the stack and on the heap, exactly if the counts of all numbers but the
last one come to the ends of their strings and the context has the length of its first number.  What is read
of a file stays in the block of `readKey` exactly if the byte of the heap behind the file is a `NUL`, or there
are eight strings that end in the file, or one of those that do is no number.  And a file without eight such
strings is never taken for a key. -/
theorem readKey_writeKey_iff (code : MpiCode Mpi) (hbad : ∀ s, code.readString (0x7A :: s) = none) :
    (∀ rsa answers, (∀ q, Lossless code (rsa.part q)) →
      (∀ q, (∀ c ∈ answers q, 0 < c) ∧ lineLength code (rsa.part q) ≤ (answers q).length) →
      (Restores code rsa answers ↔
        (∀ q, q ≠ .QP → AddsUp (answers q) (lineLength code (rsa.part q))) ∧
          rsa.len = code.size (rsa.part .N))) ∧
    (∀ inp l filebuf before, inp.file = some l → inp.block = some filebuf →
      ((∀ x, Touched x (readKey code inp before).2 → filebuf ≤ x ∧ x < filebuf + l.length + 1) ↔
        inp.examined = false ∨ l = [] ∨ ioResult inp.ready l.length ≠ l.length ∨
        inp.heap (filebuf + l.length) = 0 ∨ 8 ≤ (terminated l).length ∨
          ∃ s ∈ terminated l, code.readString s = none)) ∧
    ∀ inp l before rsa, inp.file = some l → (terminated l).length < 8 →
      (readKey code inp before).1 ≠ some (.ok rsa) := by
  refine ⟨?_, ?_, ?_⟩
  · intro rsa answers hlossless hcounts
    obtain ⟨str, h⟩ := exists_spelled hlossless
    have henough : Enough str answers := by
      intro q
      obtain ⟨hpos, hlen⟩ := hcounts q
      rw [h.lineLength] at hlen
      exact length_le_reached (Nat.succ_pos _) hpos (by omega)
    constructor
    · intro hrestores
      refine ⟨fun q hq => ?_, (parts_of_restores h henough hrestores fun _ _ => 0).1⟩
      rw [h.lineLength]
      exact addsUp_of_restores hbad h henough hrestores hq
    · rintro ⟨hadds, hlen⟩
      refine restores_of_addsUp h henough (fun q hq => ?_) hlen
      rw [← h.lineLength]
      exact hadds q hq
  · intro inp l filebuf before hfile hblock
    by_cases hgood : inp.examined = true ∧ l ≠ [] ∧ ioResult inp.ready l.length = l.length
    · obtain ⟨hexamined, hne, hready⟩ := hgood
      have hheld := holdsAt_iff_rowAt.mpr (rowAt_putRow (l := l) (m := inp.heap) (a := filebuf))
      have hinside := readParts_inside code (inp.fits filebuf hblock l hfile) keyParts before.part hheld rfl
      have hlast : putRow inp.heap filebuf l (filebuf + l.length + 1 - 1) = inp.heap (filebuf + l.length) :=
        putRow_of_ne (Or.inr (Nat.le_refl _))
      rw [hlast] at hinside
      rw [readKey_eq hfile hblock hexamined hne hready, or_iff_right (by simp [hexamined]), or_iff_right hne,
        or_iff_right (not_not.mpr hready)]
      dsimp only
      refine Iff.trans ?_ hinside
      exact ⟨fun hx x h => (hx x h).2, fun hx x h => ⟨le_of_touched h, hx x h⟩⟩
    · obtain ⟨e, he⟩ := readKey_refused code before hfile
        fun hexamined hne _ hready => hgood ⟨hexamined, hne, hready⟩
      have hrefused : inp.examined = false ∨ l = [] ∨ ioResult inp.ready l.length ≠ l.length := by
        by_contra hno
        simp only [not_or, not_not, Bool.not_eq_false] at hno
        exact hgood hno
      refine iff_of_true (fun x hx => ?_) ?_
      · rw [he] at hx
        exact hx.elim
      · rcases hrefused with h | h | h
        · exact Or.inl h
        · exact Or.inr (Or.inl h)
        · exact Or.inr (Or.inr (Or.inl h))
  · intro inp l before rsa hfile hfew hok
    cases hblock : inp.block with
    | none =>
      obtain ⟨e, he⟩ := readKey_refused code before hfile fun _ _ h => absurd hblock h
      rw [he] at hok
      exact nomatch hok
    | some filebuf =>
      obtain ⟨-, -, -, -, hparts⟩ := readKey_len hfile hblock hok
      have hheld := holdsAt_iff_rowAt.mpr (rowAt_putRow (l := l) (m := inp.heap) (a := filebuf))
      have hcount := length_le_terminated (inp.fits filebuf hblock l hfile) hheld rfl hparts
      exact absurd hcount (Nat.not_le.mpr hfew)

/-! ## 9. Three short files -/

/-- Numbers of one digit, as the library writes and reads them. -/
def digitCode : MpiCode Nat where
  size _ := 1
  writeString x room := if x < 10 ∧ 3 ≤ room then some [0x30, UInt8.ofNat (0x30 + x), 0] else none
  readString
    | [0x30, c] => if 0x30 ≤ c ∧ c ≤ 0x39 then some (c.toNat - 0x30) else none
    | _ => none

theorem digitCode_bad (s : List UInt8) : digitCode.readString (0x7A :: s) = none := rfl

/-- A context of fives. -/
def fives : RsaContext Nat := ⟨fun _ => 5, 1⟩

theorem lossless_fives (q : RsaPart) : Lossless digitCode (fives.part q) :=
  ⟨[0x30, 0x35], by decide, rfl, rfl⟩

theorem lineLength_fives (q : RsaPart) : lineLength digitCode (fives.part q) = 3 := rfl

/-- Counts that add up to the three bytes of a five, and a file with one string that does not end. -/
theorem readKey_writeKey_fives : Restores digitCode fives (fun _ => [1, 2, 1]) ∧
    (∀ x, Touched x (readKey digitCode (plainInput [0x30, 0x35]) fives).2 → 0 ≤ x ∧ x < 0 + 2 + 1) ∧
    ∀ rsa, (readKey digitCode (plainInput [0x30, 0x35]) fives).1 ≠ some (.ok rsa) := by
  have h := readKey_writeKey_iff digitCode digitCode_bad
  refine ⟨(h.1 fives (fun _ => [1, 2, 1]) lossless_fives ?_).mpr ?_, ?_, ?_⟩
  · exact fun q => ⟨by decide, Nat.le_of_eq (lineLength_fives q)⟩
  · refine ⟨fun q _ => ?_, rfl⟩
    rw [lineLength_fives]
    decide
  · exact (h.2.1 (plainInput [0x30, 0x35]) [0x30, 0x35] 0 fives rfl rfl).mpr
      (Or.inr (Or.inr (Or.inr (Or.inl rfl))))
  · exact fun rsa => h.2.2 (plainInput [0x30, 0x35]) [0x30, 0x35] fives rsa rfl (by decide)

/-- A file of one byte in a heap of ones. -/
def onesInput : KeyInput where
  file := some [0x31]
  examined := true
  block := some 0
  ready := some 1
  heap x := if x < 8 then 0x31 else 0
  top := 16
  fits := by
    rintro a ha l hl
    obtain rfl : 0 = a := by simpa using ha
    obtain rfl : [0x31] = l := by simpa using hl
    decide

/-- **A first write of two bytes**, and what is asked for after that is written: the key is not restored.
And **a file of one byte** without a `NUL`: what is read of it goes on behind the block. -/
theorem readKey_writeKey_short : ¬ Restores digitCode fives (fun _ => [2, 3, 3]) ∧
    ¬ ∀ x, Touched x (readKey digitCode onesInput fives).2 → 0 ≤ x ∧ x < 0 + 1 + 1 := by
  constructor
  · intro hrestores
    obtain ⟨str, hstr⟩ := exists_spelled lossless_fives
    have hlen : ∀ q, (str q).length + 1 = 3 := fun q => (hstr.lineLength q).symm.trans (lineLength_fives q)
    have hreached : 3 ≤ reached 3 [2, 3, 3] 0 := by decide
    have henough : Enough str (fun _ => [2, 3, 3]) := by
      intro q
      rw [hlen]
      exact hreached
    have hadds := addsUp_of_restores digitCode_bad hstr henough hrestores (q := .N) (by decide)
    rw [hlen] at hadds
    exact absurd hadds (by decide)
  · intro h
    have htouched : Touched 2 (readKey digitCode onesInput fives).2 := by
      have hread : (readKey digitCode onesInput fives).2 = [.read 0 9] := by decide +kernel
      rw [hread]
      exact Or.inl (by decide)
    exact absurd (h 2 htouched).2 (by decide)

end AndixOs.Rsa
