/-
# Random bytes for a trustlet

`platform_pseudo_entropy` opens `/dev/urandom`, reads and closes it.  The device is the descriptor 3, for
which there is no handle: `swi_open` returns it, `swi_close` finds nothing to close, and `swi_read` fills
the buffer.  But then it goes on to look for the handle, and returns -1 like for any descriptor that is not
open.  So the bytes are there, and the trustlet is told that there are none (`entropy_told_none`); in no
state does `platform_pseudo_entropy` do what it is for (`entropy_never_right`).
-/
import AndixOs.Fs.OpenName
import AndixOs.Fs.Length
import AndixOs.Fs.Read
import AndixOs.Swi.Newlib

namespace AndixOs.Swi

open AndixOs AndixOs.Mm AndixOs.Task

/-! ## 1. The calls -/

/-- A process with its files: the `cfs_t` at each address, the store behind them and the random device. -/
structure Trustlet (Digest σ : Type) where
  caller : Caller
  cfs : Nat → Fs.Cfs
  world : Fs.World Digest σ

variable {Digest σ : Type}

/-- The process after the kernel stored bytes through a pointer of it. -/
def Trustlet.store (s : Trustlet Digest σ) (buffer : Nat) (src : Nat → UInt8) (count : Nat) :
    Trustlet Digest σ :=
  { s with caller := { s.caller with m := storeUser s.caller.k s.caller.m buffer src count } }

def Trustlet.withFiles (s : Trustlet Digest σ) (f : Files) : Trustlet Digest σ :=
  { s with caller := { s.caller with files := f } }

/-- The loop of `swi_read` with `random_next8`. -/
def Trustlet.fillRandom (e : Fs.FsEnv Digest σ) (s : Trustlet Digest σ) (buffer size : Nat) :
    Trustlet Digest σ :=
  { s.store buffer (fun i => e.random (s.world.drawn + i)) size with
    world := { s.world with drawn := s.world.drawn + size } }

/-- What the kernel reads through a pointer. -/
def Trustlet.bytesAt (s : Trustlet Digest σ) (buffer i : Nat) : UInt8 :=
  (byteAt s.caller.k s.caller.m (buffer + i)).getD 0

/-- `swi_read` of the descriptor 3; `none` where it does not return. -/
def swiReadRandom [DecidableEq Digest] (e : Fs.FsEnv Digest σ) (stk : Fs.FsStack Digest)
    (s : Trustlet Digest σ) (buffer : Nat) (size : UInt32) : Option (Int × Trustlet Digest σ) :=
  if isValidUserAddr s.caller buffer = false then some (-1, s)
  else
    let s := s.fillRandom e buffer size.toNat
    match procGetFhandle s.caller.files 3 with
    | none => none
    | some none => some (-1, s)
    | some (some hdl) =>
      match (s.caller.files.handles hdl).data with
      | none => some (-1, s)
      | some data =>
        (Fs.fsRead e s.world (s.cfs data) (s.bytesAt buffer) size stk).map fun r =>
          (r.ret,
            { s.store buffer r.buf size.toNat with
              cfs := Function.update s.cfs data r.handle
              world := r.world })

/-- `swi_close` with the `fs_close` of the file. -/
def swiCloseFile (e : Fs.FsEnv Digest σ) (s : Trustlet Digest σ) (fd : Int) : Option (Trustlet Digest σ) :=
  (swiClose s.caller.files fd).map fun f =>
    { s.withFiles f with
      world :=
        match fileOf s.caller.files fd with
        | none => s.world
        | some data => (Fs.fsClose e s.world (s.cfs data)).2 }

/-- `swi_open` of the string `"/dev/urandom"`, which the trustlet has at `name`. -/
def urandomCall (s : Trustlet Digest σ) (name : Nat) : OpenCall :=
  ⟨urandomName, isValidUserAddr s.caller name, none, none, 0, none⟩

/-- What `platform_pseudo_entropy` returns and leaves. -/
structure Entropy (Digest σ : Type) where
  ret : Int
  olen : UInt32
  after : Trustlet Digest σ

/-- `platform_pseudo_entropy`; `none` where a call does not return. -/
def platformPseudoEntropy [DecidableEq Digest] (e : Fs.FsEnv Digest σ) (stk : Fs.FsStack Digest)
    (s : Trustlet Digest σ) (name output : Nat) (len : UInt32) : Option (Entropy Digest σ) :=
  match swiOpen s.caller.files (urandomCall s name) with
  | none => none
  | some (f, fd) =>
    let s := s.withFiles f
    if fd ≤ 0 then some ⟨-1, 0, s⟩
    else
      match swiReadRandom e stk s output len with
      | none => none
      | some (n, s) =>
        -- the count is a `size_t`
        if UInt32.ofInt n ≠ len then (swiCloseFile e s fd).map (⟨-1, 0, ·⟩)
        else (swiCloseFile e s fd).map (⟨0, len, ·⟩)

/-! ## 2. What a trustlet relies on -/

/-- A buffer in user space. -/
structure UserBuffer where
  addr : Nat
  len : UInt32
  inUser : addr + len.toNat ≤ 0x80000000

/-- The bytes of the buffer, and no other, are random. -/
structure FilledExactly (e : Fs.FsEnv Digest σ) (s : Trustlet Digest σ) (b : UserBuffer)
    (t : Trustlet Digest σ) : Prop where
  filled : ∀ i < b.len.toNat,
    byteAt s.caller.k t.caller.m (b.addr + i) = some (e.random (s.world.drawn + i))
  frame : ∀ x, (∀ i < b.len.toNat, writeAddr s.caller.k (w32 (b.addr + i)) ≠ some x) →
    t.caller.m x = s.caller.m x

/-- The buffer is filled, the trustlet is told so, and all files are as they were. -/
structure EntropyRight (e : Fs.FsEnv Digest σ) (s : Trustlet Digest σ) (b : UserBuffer)
    (r : Entropy Digest σ) : Prop where
  filled : FilledExactly e s b r.after
  ret : r.ret = 0
  olen : r.olen = b.len
  files : r.after.caller.files = s.caller.files
  cfs : r.after.cfs = s.cfs
  store : r.after.world.store = s.world.store

variable {e : Fs.FsEnv Digest σ} {stk : Fs.FsStack Digest} {s t : Trustlet Digest σ} {name : Nat}
  {b : UserBuffer} {f f' : Files} {fd : Int} {hdl data : Nat}

/-! ## 3. The calls one by one -/

theorem UserBuffer.len_ne (b : UserBuffer) : UInt32.ofInt (-1) ≠ b.len := by
  intro heq
  have h := b.inUser
  rw [← heq] at h
  have hmax : (UInt32.ofInt (-1)).toNat = 4294967295 := by decide
  omega

/-- `swi_open` makes no handle for the device. -/
theorem swiOpen_urandom (s : Trustlet Digest σ) (name : Nat) :
    swiOpen s.caller.files (urandomCall s name) =
      some (s.caller.files, if isValidUserAddr s.caller name = true then 3 else -1) := by
  rw [swiOpen]
  cases hvalid : isValidUserAddr s.caller name with
  | false => exact if_pos hvalid
  | true =>
    rw [if_neg (by simp [urandomCall, hvalid])]
    rfl

/-- Closing a descriptor without a handle. -/
theorem swiCloseFile_of_none (hnone : procGetFhandle s.caller.files fd = some none) :
    swiCloseFile e s fd = some s := by
  rw [swiCloseFile, swiClose, fileOf, hnone]
  rfl

/-- Taking a node out touches no handle. -/
theorem procRemFhandle_handles (hremove : procRemFhandle f hdl = some f') : f'.handles = f.handles := by
  rw [procRemFhandle, lockedListRemoveMatch] at hremove
  split at hremove
  · cases hremove
  · rw [← Option.some.inj hremove]
  · rw [← Option.some.inj hremove]
    rfl

/-- Closing a file leaves its handle without one. -/
theorem swiClose_handle (hget : procGetFhandle f fd = some (some hdl))
    (hdata : (f.handles hdl).data = some data) (hclose : swiClose f fd = some f') :
    (f'.handles hdl).data = none := by
  rw [swiClose, hget] at hclose
  obtain ⟨f₁, hremove, rfl⟩ := Option.map_eq_some_iff.mp hclose
  have hhandles : f₁.handles = (freeData f hdl).handles := procRemFhandle_handles hremove
  rw [Files.kfree, hhandles, freeData, hdata]
  simp [Files.setHandle]

section Read

variable [DecidableEq Digest] {buffer : Nat} {size : UInt32}

/-- Without a handle for the descriptor a read fills the buffer and fails. -/
theorem swiReadRandom_of_none (hvalid : isValidUserAddr s.caller buffer = true)
    (hnone : procGetFhandle s.caller.files 3 = some none) :
    swiReadRandom e stk s buffer size = some (-1, s.fillRandom e buffer size.toNat) := by
  have hnone' : procGetFhandle (s.fillRandom e buffer size.toNat).caller.files 3 = some none := hnone
  rw [swiReadRandom, if_neg (by rw [hvalid]; exact nofun)]
  simp only [hnone']

/-- A read that does not fail was one of a file. -/
theorem swiReadRandom_ok {n : Int} (hn : n ≠ -1) (hread : swiReadRandom e stk s buffer size = some (n, t)) :
    t.caller.files = s.caller.files ∧ ∃ hdl data, procGetFhandle s.caller.files 3 = some (some hdl) ∧
      (s.caller.files.handles hdl).data = some data := by
  rw [swiReadRandom] at hread
  split at hread
  · exact absurd (Prod.mk.inj (Option.some.inj hread)).1.symm hn
  dsimp only at hread
  split at hread
  · exact absurd hread nofun
  · exact absurd (Prod.mk.inj (Option.some.inj hread)).1.symm hn
  · rename_i hdl hget
    split at hread
    · exact absurd (Prod.mk.inj (Option.some.inj hread)).1.symm hn
    · rename_i data hdata
      obtain ⟨r, -, hr⟩ := Option.map_eq_some_iff.mp hread
      rw [← (Prod.mk.inj hr).2]
      exact ⟨rfl, hdl, data, hget, hdata⟩

end Read

/-! ## 4. `platform_pseudo_entropy` -/

/-- Without a handle for the descriptor the bytes are there, and the trustlet is told that none are. -/
theorem entropy_told_none [DecidableEq Digest] (hname : isValidUserAddr s.caller name = true)
    (hbuf : isValidUserAddr s.caller b.addr = true) (hnone : procGetFhandle s.caller.files 3 = some none) :
    platformPseudoEntropy e stk s name b.addr b.len =
      some ⟨-1, 0, s.fillRandom e b.addr b.len.toNat⟩ := by
  have hclose : swiCloseFile e (s.fillRandom e b.addr b.len.toNat) 3 =
      some (s.fillRandom e b.addr b.len.toNat) := swiCloseFile_of_none hnone
  have hread : swiReadRandom e stk (s.withFiles s.caller.files) b.addr b.len =
      some (-1, s.fillRandom e b.addr b.len.toNat) := swiReadRandom_of_none hbuf hnone
  rw [platformPseudoEntropy, swiOpen_urandom, if_pos hname]
  simp only [show ¬(3 : Int) ≤ 0 by decide, if_false, hread, if_pos b.len_ne, hclose]
  rfl

/-- Where each byte of the buffer has its own place in memory, it is filled exactly. -/
theorem fillRandom_filledExactly
    (hmapped : ∀ i < b.len.toNat, ∃ l, Mm.translate s.caller.k (w32 (b.addr + i)) = some l ∧
      l.svcReads = true ∧ l.svcWrites = true)
    (hinj : ∀ i < b.len.toNat, ∀ j < b.len.toNat,
      writeAddr s.caller.k (w32 (b.addr + i)) = writeAddr s.caller.k (w32 (b.addr + j)) → i = j) :
    FilledExactly e s b (s.fillRandom e b.addr b.len.toNat) where
  filled i hi := by
    obtain ⟨l, hl, hreads, hwrites⟩ := hmapped i hi
    have hwr : writeAddr s.caller.k (w32 (b.addr + i)) = some l.pa := by
      rw [writeAddr, hl, Option.bind_some, if_pos hwrites]
    have hrd : readAddr s.caller.k (w32 (b.addr + i)) = some l.pa := by
      rw [readAddr, hl, Option.bind_some, if_pos hreads]
    have hdone : (storeBytes (fun i => writeAddr s.caller.k (w32 (b.addr + i)))
        (fun i => e.random (s.world.drawn + i)) b.len.toNat 0 s.caller.m).1 = true := by
      refine storeBytes_done.mpr fun j _ hj => ?_
      obtain ⟨l, hl, -, hwrites⟩ := hmapped j (by omega)
      rw [writeAddr, hl, Option.bind_some, if_pos hwrites]
      rfl
    rw [byteAt, hrd, Option.map_some]
    refine congrArg some (storeBytes_at hdone (Nat.zero_le i) (by omega) (fun x _ hx heq => ?_) hwr)
    exact hinj x (by omega) i hi heq
  frame x hx := storeBytes_of_ne fun j _ hj => hx j (by omega)

/-- **No trustlet gets random bytes** and is told so with its files untouched. -/
theorem entropy_never_right [DecidableEq Digest] (e : Fs.FsEnv Digest σ) (stk : Fs.FsStack Digest)
    (s : Trustlet Digest σ) (name : Nat) (b : UserBuffer) :
    ¬∃ r, platformPseudoEntropy e stk s name b.addr b.len = some r ∧ EntropyRight e s b r := by
  rintro ⟨r, hr, hright⟩
  rw [platformPseudoEntropy, swiOpen_urandom] at hr
  by_cases hname : isValidUserAddr s.caller name = true
  · rw [if_pos hname] at hr
    simp only [show ¬(3 : Int) ≤ 0 by decide, if_false] at hr
    match hread : swiReadRandom e stk (s.withFiles s.caller.files) b.addr b.len, hr with
    | some (n, s'), hr =>
      by_cases hn : UInt32.ofInt n ≠ b.len
      · simp only [if_pos hn] at hr
        obtain ⟨t, -, rfl⟩ := Option.map_eq_some_iff.mp hr
        exact absurd hright.ret nofun
      · simp only [if_neg hn] at hr
        obtain ⟨t, hclose, rfl⟩ := Option.map_eq_some_iff.mp hr
        have hne : n ≠ -1 := by
          rintro rfl
          exact hn b.len_ne
        -- only a file was read, and it is closed
        obtain ⟨hfiles, hdl, data, hget, hdata⟩ := swiReadRandom_ok hne hread
        obtain ⟨f, hf, rfl⟩ := Option.map_eq_some_iff.mp hclose
        rw [hfiles] at hf
        have hnone := swiClose_handle hget hdata hf
        have hsame : f = s.caller.files := hright.files
        rw [hsame] at hnone
        exact absurd (hdata.symm.trans hnone) nofun
  · rw [if_neg hname] at hr
    simp only [show (-1 : Int) ≤ 0 by decide, if_true] at hr
    obtain rfl := Option.some.inj hr
    exact absurd hright.ret nofun

/-! ## 5. The open files of a process -/

/-- `swi_open` gives descriptors from 100 on. -/
def From100 (r : FileRun) : Prop := ∀ o ∈ r.opened, 100 ≤ o.fd

theorem from100_recordOpen {opened : List OpenFile} (h : ∀ o ∈ opened, 100 ≤ o.fd) (c : OpenCall) :
    ∀ o ∈ recordOpen opened c fd, 100 ≤ o.fd := by
  intro o ho
  rw [recordOpen] at ho
  split at ho
  · split at ho
    · rename_i hfd
      obtain ho | ho := List.mem_append.mp ho
      · exact h o ho
      · rwa [List.mem_singleton.mp ho]
    · exact h o ho
  · exact h o ho

theorem from100_step {r r' : FileRun} {c : FileCall} (h : From100 r) (hstep : FileStep r c r') :
    From100 r' := by
  cases hstep with
  | openFile _ _ => exact from100_recordOpen h _
  | close _ => exact fun o ho => h o (List.mem_filter.mp ho).1
  | other _ => exact h

theorem from100_run {cs : List FileCall} {r : FileRun} (hrun : Run FileStep .init cs r) : From100 r := by
  have hstart : From100 .init := fun o ho => absurd ho List.not_mem_nil
  exact hrun.invariant (fun _ _ _ h hstep => from100_step h hstep) hstart

/-- As long as the list of open files is in order, the device has no handle. -/
theorem urandom_no_handle {cs : List FileCall} {r : FileRun} (hrun : Run FileStep .init cs r)
    (hkept : FilesKept r) : procGetFhandle r.files 3 = some none := by
  have hnone : (r.opened.find? fun o => o.fd == 3) = none := by
    refine List.find?_eq_none.mpr fun o ho heq => ?_
    have hfd := from100_run hrun o ho
    have heq' : o.fd = 3 := by simpa using heq
    omega
  rw [hkept.found, hnone]
  rfl

/-- The process with one page draws a key of 16 bytes. -/
def keyDrawer : Trustlet Fs.SymDigest (Fs.Disk Fs.SymDigest) :=
  ⟨onePage, fun _ => Fs.closedHandle, ⟨Fs.Disk.empty, 0, []⟩⟩

def keyBuffer : UserBuffer := ⟨0x8100, 16, by decide⟩

/-- **A key is drawn** into a mapped buffer, and the result says that it is not. -/
theorem key_told_none :
    (∀ i < 16, userMapped onePage.k (keyBuffer.addr + i)) ∧
      ∃ r, platformPseudoEntropy Fs.symEnv Fs.zeroStack keyDrawer 0x8000 keyBuffer.addr keyBuffer.len =
          some r ∧
        r.ret = -1 ∧ r.olen = 0 ∧ ¬EntropyRight Fs.symEnv keyDrawer keyBuffer r := by
  have hvalid : isValidUserAddr onePage 0x8100 = true := by decide
  have htold : platformPseudoEntropy Fs.symEnv Fs.zeroStack keyDrawer 0x8000 keyBuffer.addr keyBuffer.len =
      some ⟨-1, 0, keyDrawer.fillRandom Fs.symEnv keyBuffer.addr keyBuffer.len.toNat⟩ :=
    entropy_told_none (by decide) hvalid rfl
  refine ⟨fun i hi => ?_, _, htold, rfl, rfl, fun h => absurd h.ret nofun⟩
  have hpage : (0x8100 + i) / 0x1000 = 0x8100 / 0x1000 := by omega
  exact userMapped_page (userMapped_of_valid hvalid) hpage

end AndixOs.Swi
