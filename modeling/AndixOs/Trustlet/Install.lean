/-
# Packages

A trustlet comes to the device as a package: a header of 84 bytes (`andixpack`: a name, a UUID and
the length of the binary) and the binary.  The packer writes it on the host; `sysd_install` of the system daemon
gets it in a memory reference, compares its size with the length in the header, asks the user, and
hands the binary to the kernel.

The comparison is made with a sum that wraps, and the header is read before the size of the buffer is
known to be that of one.  `install_right_iff` says for which buffers that shows, and that it never does for a package that the
packer has written.
-/
import AndixOs.Lib.Rows
import AndixOs.Task.UuidAgree
import AndixOs.Tee.Types

namespace AndixOs.Trustlet

open AndixOs.Tee (teeSuccess teeErrorBadParameters)
open AndixOs.Uuid (CStr parseUuid packBytes)

/-! ## 1. The daemon: `andix_manager/main.c` -/

def teeErrorAccessDenied : UInt32 := 0xFFFF0001

/-- `TEE_PARAM_TYPES`. -/
def teeParamTypes (t0 t1 t2 t3 : UInt32) : UInt32 := t0 ||| t1 <<< 4 ||| t2 <<< 8 ||| t3 <<< 12

/-- A memory reference: the buffer lies in the address space. -/
structure Memref where
  buffer : Nat
  size : UInt32
  fits : buffer + size.toNat < 4294967296

/-- `sizeof(andixpack)`. -/
def sizeofAndixpack : Nat := 84

/-- `pack->datalen`, of the package at an address. -/
def datalen (m : Mem) (pack : Nat) : UInt32 := word m (pack + 80)

/-- What came of a call: what it returned, if it is not asking yet, and the arguments of its calls of
`SWI_SYSD_INSTALL`. -/
structure InstallRun where
  result : Option UInt32
  calls : List (Nat × UInt32)

/-- The loop that asks, with the characters that `getchar` returns. -/
def askLoop (elf : Nat) (len : UInt32) : List UInt8 → InstallRun
  | [] => ⟨none, []⟩
  | c :: cs =>
    if c = 0x79 then ⟨some teeSuccess, [(elf, len)]⟩
    else if c = 0x6E then ⟨some teeErrorAccessDenied, []⟩
    else askLoop elf len cs

/-- `sysd_install`. -/
def sysdInstall (m : Mem) (paramTypes : UInt32) (memref : Memref) (answers : List UInt8) : InstallRun :=
  if paramTypes ≠ teeParamTypes 5 0 0 0 then ⟨some teeErrorBadParameters, []⟩
  else
    let elf := w32 (memref.buffer + sizeofAndixpack)
    let totalsize := datalen m memref.buffer + UInt32.ofNat sizeofAndixpack
    if totalsize ≠ memref.size then ⟨some teeErrorBadParameters, []⟩
    else askLoop elf (datalen m memref.buffer) answers

/-- Whatever the user answers, what is installed is the binary of a package that fills the buffer. -/
def InstallsPackage (m : Mem) (memref : Memref) : Prop :=
  ∀ paramTypes answers, ∀ call ∈ (sysdInstall m paramTypes memref answers).calls,
    sizeofAndixpack ≤ memref.size.toNat ∧
    (datalen m memref.buffer).toNat + sizeofAndixpack = memref.size.toNat ∧
    memref.buffer ≤ call.1 ∧ call.1 + call.2.toNat ≤ memref.buffer + memref.size.toNat

/-! ## 2. The packer: `andix_packer/main.c` -/

/-- What a call of `read` or `write` returns that is asked to move `count` bytes: -1, or as many as the
system is ready to move and no more than `count`. -/
def ioResult (ready : Option Nat) (count : Int) : Int :=
  match ready with
  | none => -1
  | some k => min (k : Int) count

/-- The loop around `read` and `write`, with the answers of the system; `total` and `cur` are of the
type `int`.  `none`: the loop gives up, or is not done. -/
def transfer (src : List UInt8) : List (Option Nat) → Int → List UInt8 → Option (List UInt8)
  | [], total, out => if (src.length : Int) ≤ total then some out else none
  | ready :: rest, total, out =>
    if (src.length : Int) ≤ total then some out
    else
      let moved := ioResult ready (src.length - total)
      let cur := moved.bmod 4294967296
      if cur ≤ 0 then none
      else
        transfer src rest ((total + cur).bmod 4294967296)
          (out ++ (src.drop total.toNat).take moved.toNat)

/-- What the host answers to the packer: whether the files are opened, the first one is examined and
its buffer allocated, and what it is ready to move. -/
structure Host where
  opened : Bool
  examined : Bool
  allocated : Bool
  created : Bool
  reads : List (Option Nat)
  headerWrites : List (Option Nat)
  dataWrites : List (Option Nat)

/-- The structure `pack`. -/
def andixpack (name : List UInt8) (uuid : List UInt8) (len : UInt32) : List UInt8 :=
  name ++ List.replicate (64 - name.length) 0 ++ uuid ++ le32 len

/-- `main` of the packer, with the contents of the binary and what is in `tee` before: what is in the
package when it is closed. -/
def packerMain (host : Host) (binary : List UInt8) (uuid name : CStr) (tee : Mem) :
    Option (List UInt8) :=
  let parsed := parseUuid uuid tee
  if parsed.1 ≠ 0 then none
  else if 64 < name.chars.length then none
  else if ¬ (host.opened ∧ host.examined ∧ host.allocated) then none
  else
    match transfer binary host.reads 0 [] with
    | none => none
    | some buffer =>
      let pack := andixpack name.chars (packBytes parsed.2) (UInt32.ofNat binary.length)
      if ¬ host.created then none
      else
        match transfer pack host.headerWrites 0 [] with
        | none => none
        | some out => transfer buffer host.dataWrites 0 out

/-- A package is asked about, and installed when the user says so. -/
def Accepts (m : Mem) (memref : Memref) (len : Nat) : Prop :=
  (∀ answers, (sysdInstall m (teeParamTypes 5 0 0 0) memref answers).result ≠
    some teeErrorBadParameters) ∧
  (sysdInstall m (teeParamTypes 5 0 0 0) memref [0x79]).calls =
    [(memref.buffer + sizeofAndixpack, UInt32.ofNat len)]

/-! ## 3. What the daemon installs -/

variable {m : Mem} {memref : Memref} {elf : Nat} {len : UInt32} {src out r : List UInt8}
  {paramTypes : UInt32} {answers : List UInt8}

/-- One call at most, of the binary. -/
theorem askLoop_calls : ∀ {answers : List UInt8}, ∀ call ∈ (askLoop elf len answers).calls,
    call = (elf, len)
  | [], _, h => absurd h List.not_mem_nil
  | c :: cs, call, h => by
    rw [askLoop] at h
    split at h
    · simpa using h
    split at h
    · exact absurd h List.not_mem_nil
    · exact askLoop_calls call h

theorem askLoop_result : ∀ {answers : List UInt8},
    (askLoop elf len answers).result ≠ some teeErrorBadParameters
  | [] => nofun
  | c :: cs => by
    rw [askLoop]
    split
    · simp [teeSuccess, teeErrorBadParameters]
    split
    · simp [teeErrorAccessDenied, teeErrorBadParameters]
    · exact askLoop_result

/-- The comparison of the daemon. -/
def SizeMatches (m : Mem) (memref : Memref) : Prop :=
  datalen m memref.buffer + UInt32.ofNat sizeofAndixpack = memref.size

/-- **The daemon asks** exactly if the comparison succeeds. -/
theorem sysdInstall_eq (m : Mem) (memref : Memref) (answers : List UInt8) :
    (SizeMatches m memref ∧ sysdInstall m (teeParamTypes 5 0 0 0) memref answers =
      askLoop (w32 (memref.buffer + sizeofAndixpack)) (datalen m memref.buffer) answers) ∨
    (¬ SizeMatches m memref ∧ sysdInstall m (teeParamTypes 5 0 0 0) memref answers =
      ⟨some teeErrorBadParameters, []⟩) := by
  by_cases h : SizeMatches m memref
  · refine Or.inl ⟨h, ?_⟩
    simp only [SizeMatches] at h
    simp [sysdInstall, h]
  · refine Or.inr ⟨h, ?_⟩
    simp only [SizeMatches] at h
    simp [sysdInstall, h]

/-- What is called with other parameter types is refused. -/
theorem sysdInstall_types (h : paramTypes ≠ teeParamTypes 5 0 0 0) :
    sysdInstall m paramTypes memref answers = ⟨some teeErrorBadParameters, []⟩ := if_pos h

/-- **The sum that wraps**: it is the size exactly if it is that without wrapping, or by wrapping once,
in a buffer that has no room for a header. -/
theorem sizeMatches_iff : SizeMatches m memref ↔
    (datalen m memref.buffer).toNat + 84 = memref.size.toNat ∨
      (memref.size.toNat < 84 ∧
        (datalen m memref.buffer).toNat = memref.size.toNat + 4294967296 - 84) := by
  have hlen := (datalen m memref.buffer).toNat_lt
  have hsize := memref.size.toNat_lt
  have hheader : (UInt32.ofNat sizeofAndixpack).toNat = 84 := rfl
  rw [SizeMatches, ← UInt32.toNat_inj, UInt32.toNat_add, hheader]
  omega

/-- The user says yes. -/
theorem install_yes (h : SizeMatches m memref) :
    (sysdInstall m (teeParamTypes 5 0 0 0) memref [0x79]).calls =
      [(w32 (memref.buffer + sizeofAndixpack), datalen m memref.buffer)] := by
  rcases sysdInstall_eq m memref [0x79] with ⟨-, heq⟩ | ⟨hno, -⟩
  · rw [heq]
    rfl
  · exact absurd h hno

/-- **Buffers**: what is installed is a package that fills the buffer, unless the header does not fit and
the length in it makes up for what is missing. -/
theorem installsPackage_iff (m : Mem) (memref : Memref) : InstallsPackage m memref ↔
    84 ≤ memref.size.toNat ∨
      (datalen m memref.buffer).toNat ≠ memref.size.toNat + 4294967296 - 84 := by
  have hfits := memref.fits
  constructor
  · intro h
    by_contra hno
    have hmatch : SizeMatches m memref := sizeMatches_iff.mpr (Or.inr (by omega))
    have hinside := h _ [0x79] _ ((install_yes hmatch).symm ▸ List.mem_singleton_self _)
    have hheader : sizeofAndixpack = 84 := rfl
    omega
  · intro hcond paramTypes answers call hcall
    by_cases htypes : paramTypes = teeParamTypes 5 0 0 0
    · subst htypes
      rcases sysdInstall_eq m memref answers with ⟨hmatch, heq⟩ | ⟨-, heq⟩
      · rw [heq] at hcall
        obtain rfl := askLoop_calls call hcall
        have hsum := sizeMatches_iff.mp hmatch
        have hheader : sizeofAndixpack = 84 := rfl
        have helf : w32 (memref.buffer + sizeofAndixpack) = memref.buffer + 84 := w32_of_lt (by omega)
        dsimp only
        omega
      · rw [heq] at hcall
        exact absurd hcall List.not_mem_nil
    · rw [sysdInstall_types htypes] at hcall
      exact absurd hcall List.not_mem_nil

/-! ## 4. What the packer writes -/

/-- What is left to move, if it fits an `int`, is moved as it is counted. -/
theorem ioResult_small {ready : Option Nat} {left : Nat} (hleft : left < 2147483648)
    (hpos : 0 < (ioResult ready left).bmod 4294967296) :
    ∃ n, 0 < n ∧ n ≤ left ∧ ioResult ready left = (n : Int) ∧
      (ioResult ready left).bmod 4294967296 = (n : Int) := by
  cases ready with
  | none =>
    have herror : (ioResult none left).bmod 4294967296 = -1 := rfl
    rw [herror] at hpos
    exact absurd hpos (by decide)
  | some k =>
    have hmin : ioResult (some k) left = ((min k left : Nat) : Int) := by simp [ioResult]
    have hbmod : ((min k left : Nat) : Int).bmod 4294967296 = ((min k left : Nat) : Int) :=
      Int.bmod_eq_of_le (by omega) (by omega)
    rw [hmin, hbmod] at hpos ⊢
    exact ⟨min k left, by omega, Nat.min_le_right k left, rfl, rfl⟩

/-- **The loop that moves**, when it is done: everything is moved. -/
theorem transfer_small (hsrc : src.length < 2147483648) : ∀ {ready : List (Option Nat)} {total : Nat}
    {out : List UInt8}, total ≤ src.length → transfer src ready total out = some r →
      r = out ++ src.drop total
  | [], total, out, hle, h => by
    rw [transfer] at h
    split at h
    · have htotal : total = src.length := by omega
      simpa [htotal] using h.symm
    · exact nomatch h
  | ready :: rest, total, out, hle, h => by
    rw [transfer] at h
    split at h
    · have htotal : total = src.length := by omega
      simpa [htotal] using h.symm
    have hleft : (src.length : Int) - total = ((src.length - total : Nat) : Int) := by omega
    dsimp only at h
    rw [hleft] at h
    split at h
    · exact nomatch h
    rename_i hpos
    have hfew : src.length - total < 2147483648 := by omega
    obtain ⟨n, hn, hle', hmoved, hcur⟩ := ioResult_small hfew (Int.not_le.mp hpos)
    have hsum : ((total : Int) + n).bmod 4294967296 = ((total + n : Nat) : Int) := by
      rw [Int.bmod_eq_of_le (by omega) (by omega)]
      exact (Int.natCast_add total n).symm
    rw [hcur, hmoved, hsum, Int.toNat_natCast, Int.toNat_natCast] at h
    rw [transfer_small hsrc (by omega) h, List.append_assoc, ← List.drop_drop,
      List.take_append_drop]

/-- What does not fit an `int` is never moved: the counter stays below it. -/
theorem transfer_large (hsrc : 2147483648 ≤ src.length) : ∀ {ready : List (Option Nat)} {total : Int}
    {out : List UInt8}, total < 2147483648 → transfer src ready total out = none
  | [], total, out, hlt => by
    rw [transfer, if_neg (by omega)]
  | ready :: rest, total, out, hlt => by
    have hnext : ∀ x : Int, x.bmod 4294967296 < 2147483648 := by
      intro x
      have hx := Int.bmod_lt (x := x) (m := 4294967296) (by decide)
      omega
    rw [transfer, if_neg (by omega)]
    dsimp only
    split
    · rfl
    · exact transfer_large hsrc (hnext _)

/-- **A transfer that is done** has moved everything, and that fits an `int`. -/
theorem transfer_done {ready : List (Option Nat)} (h : transfer src ready 0 out = some r) :
    r = out ++ src ∧ src.length < 2147483648 := by
  by_cases hsrc : src.length < 2147483648
  · have hstart : transfer src ready ((0 : Nat) : Int) out = some r := h
    exact ⟨transfer_small hsrc (Nat.zero_le _) hstart, hsrc⟩
  · rw [transfer_large (Nat.not_lt.mp hsrc) (by decide)] at h
    exact nomatch h

/-- The header is of the size that the daemon takes it to be. -/
theorem andixpack_length {name uuid : List UInt8} (hname : name.length ≤ 64) (huuid : uuid.length = 16) :
    (andixpack name uuid len).length = sizeofAndixpack := by
  simp only [andixpack, List.length_append, List.length_replicate, huuid, le32_length, sizeofAndixpack]
  omega

/-- **What the packer writes**: the header, and the binary. -/
theorem packerMain_spec {host : Host} {binary : List UInt8} {uuid name : CStr} {tee : Mem}
    (h : packerMain host binary uuid name tee = some out) : ∃ id : List UInt8, id.length = 16 ∧
      name.chars.length ≤ 64 ∧ binary.length < 2147483648 ∧
        out = andixpack name.chars id (UInt32.ofNat binary.length) ++ binary := by
  unfold packerMain at h
  dsimp only at h
  split at h
  · exact nomatch h
  split at h
  · exact nomatch h
  rename_i hname
  split at h
  · exact nomatch h
  split at h
  · exact nomatch h
  rename_i buffer hread
  split at h
  · exact nomatch h
  split at h
  · exact nomatch h
  rename_i header hheader
  obtain ⟨hbuffer, hlen⟩ := transfer_done hread
  have hbuffer : buffer = binary := hbuffer
  subst hbuffer
  exact ⟨_, by simp [packBytes], Nat.not_lt.mp hname, hlen,
    (transfer_done h).1.trans (congrArg (· ++ buffer) (transfer_done hheader).1)⟩

/-- **A package** in a buffer of its size is accepted. -/
theorem accepts_of_pack {name uuid binary : List UInt8} (hname : name.length ≤ 64)
    (huuid : uuid.length = 16) (hlen : binary.length < 2147483648)
    (hheld : HoldsAt m memref.buffer (andixpack name uuid (UInt32.ofNat binary.length) ++ binary))
    (hsize : memref.size.toNat =
      (andixpack name uuid (UInt32.ofNat binary.length) ++ binary).length) :
    Accepts m memref binary.length := by
  have hfits := memref.fits
  have hheader : sizeofAndixpack = 84 := rfl
  rw [List.length_append, andixpack_length hname huuid] at hsize
  have hbefore : (name ++ List.replicate (64 - name.length) 0 ++ uuid).length = 80 := by
    simp only [List.length_append, List.length_replicate, huuid]
    omega
  have hlenAt := (holdsAt_append.mp (holdsAt_append.mp hheld).1).2
  rw [hbefore] at hlenAt
  have hdatalen : datalen m memref.buffer = UInt32.ofNat binary.length := hlenAt.word
  have hnat : (UInt32.ofNat binary.length).toNat = binary.length := by
    rw [UInt32.toNat_ofNat']
    exact Nat.mod_eq_of_lt (by omega)
  have hmatch : SizeMatches m memref := by
    refine sizeMatches_iff.mpr (Or.inl ?_)
    rw [hdatalen, hnat]
    omega
  refine ⟨fun answers => ?_, ?_⟩
  · rcases sysdInstall_eq m memref answers with ⟨-, heq⟩ | ⟨hno, -⟩
    · rw [heq]
      exact askLoop_result
    · exact absurd hmatch hno
  · rw [install_yes hmatch, hdatalen, w32_of_lt (by omega)]

/-- **The daemon and the packer.**  Whatever the user answers, the daemon installs only what is a package
that fills the buffer, exactly if the buffer has room for a header or the length that is read from
where the header should be is not the size of the buffer and 2^32 less 84.  And what the packer has written is accepted. -/
theorem install_right_iff (m : Mem) (memref : Memref) :
    (InstallsPackage m memref ↔ 84 ≤ memref.size.toNat ∨
      (datalen m memref.buffer).toNat ≠ memref.size.toNat + 4294967296 - 84) ∧
    ∀ host binary uuid name tee out, packerMain host binary uuid name tee = some out →
      HoldsAt m memref.buffer out → memref.size.toNat = out.length → Accepts m memref binary.length := by
  refine ⟨installsPackage_iff m memref, ?_⟩
  intro host binary uuid name tee out hpack hheld hsize
  obtain ⟨id, hid, hname, hlen, rfl⟩ := packerMain_spec hpack
  exact accepts_of_pack hname hid hlen hheld hsize

/-- The memory that begins with the bytes of a package without a name, of a binary of one byte. -/
def packMem : Mem := fun x => if x = 80 then 1 else 0

theorem letter_noNul : (0 : UInt8) ∉ [(0x61 : UInt8)] := by decide

/-- A string of one letter. -/
def letterName : CStr := ⟨[0x61], letter_noNul⟩

/-- A UUID of zeros. -/
def zeroUuid : CStr := ⟨(List.replicate 8 0x30) ++ 0x2D :: ((List.replicate 4 0x30) ++ 0x2D ::
  ((List.replicate 4 0x30) ++ 0x2D :: ((List.replicate 4 0x30) ++ 0x2D :: List.replicate 12 0x30))),
  by decide⟩

/-- A host that moves the header in two parts. -/
def plainHost : Host := ⟨true, true, true, true, [some 5], [some 80, some 9], [some 1, some 1]⟩

/-- A package of two bytes. -/
def plainPack : List UInt8 :=
  andixpack [0x61] (List.replicate 16 0) 2 ++ [7, 8]

/-- A buffer of 85 bytes, and the package `a` of two bytes. -/
theorem install_right_plain : InstallsPackage packMem ⟨0, 85, by decide⟩ ∧
    Accepts (fun x => plainPack.getD x 0) ⟨0, 86, by decide⟩ 2 := by
  refine ⟨(install_right_iff packMem ⟨0, 85, by decide⟩).1.mpr (by decide), ?_⟩
  refine (install_right_iff (fun x => plainPack.getD x 0) ⟨0, 86, by decide⟩).2 plainHost [7, 8] zeroUuid
    letterName (fun _ => 0) plainPack (by decide +kernel) ?_ (by decide)
  decide +kernel

/-- **A buffer of four bytes**, with 2^32 - 80 where the length would be: it is taken for a package, and the binary is
what begins 84 bytes behind its beginning. -/
theorem install_four_bytes :
    ¬ InstallsPackage (fun x => if x = 80 then 0xB0 else if 81 ≤ x ∧ x < 84 then 0xFF else 0)
      ⟨0, 4, by decide⟩ := by
  intro h
  have hcall := h (teeParamTypes 5 0 0 0) [0x79] (84, 0xFFFFFFB0) (by decide)
  exact absurd hcall.1 (by decide)

end AndixOs.Trustlet
