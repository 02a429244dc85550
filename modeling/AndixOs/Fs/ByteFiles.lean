/-
# Files of bytes

What the secure file system is for: files that are byte strings, and handles with a position in one.  `ByteFiles`
says that.  Of blocks and keys it knows nothing, and of descriptors that there can be as many opens as an `int` has
positive values.

`store_is_bytes`: on an honest store, whatever is done with any number of handles and files, `fs.c` with the
ciphers of the kernel answers as these byte strings do.  The condition is on the byte strings alone: no seek goes
behind the end, no write cuts off the rest of a block, or takes the file past the blocks that a seek reaches, and
no read meets the end of a file of full blocks, where `fs_read` asks for a block that is not there.

* `Represents`: when a store and its handles stand for files of bytes;
* `storeStep_simulates`: each call keeps that, and answers the same.
-/
import AndixOs.Fs.Rewrite
import AndixOs.Fs.Tropic
import AndixOs.Lib.Simulation

namespace AndixOs.Fs

open AndixOs

/-! ## 1. Byte strings and handles -/

/-- A file is its bytes. -/
abbrev ByteFile : Type := List UInt8

/-- Files by name, and handles: the file of each, and its position. -/
structure ByteFiles (N : Type) where
  file : N → Option ByteFile
  handle : Nat → Option (N × Nat)
  opened : Nat

/-- There are no files yet. -/
def ByteFiles.start {N : Type} : ByteFiles N := ⟨fun _ => none, fun _ => none, 0⟩

inductive ByteOp (N : Type) where
  | open (i : Nat) (nm : N)
  | close (i : Nat)
  | lseek (i offset : Nat)
  | write (i : Nat) (buf : List UInt8)
  | read (i count : Nat) (mem : Nat → UInt8)
  | fstat (i : Nat)

/-- What a caller sees: the value returned, and with it what is in its buffer. -/
inductive FileAnswer where
  | notOpen
  | ret (r : Int)
  | read (r : Int) (buf : Nat → UInt8)
  | size (r : Int) (stSize : UInt32)

variable {N : Type} [DecidableEq N]

/-- What is done to an open handle. -/
def ByteFiles.on (t : ByteFiles N) (i : Nat) (go : N → Nat → ByteFile → ByteFiles N × FileAnswer) :
    ByteFiles N × FileAnswer :=
  match t.handle i with
  | none => (t, .notOpen)
  | some (nm, p) =>
    match t.file nm with
    | none => (t, .notOpen)
    | some f => go nm p f

def ByteFiles.at (t : ByteFiles N) (i : Nat) (nm : N) (p : Nat) : ByteFiles N :=
  { t with handle := Function.update t.handle i (some (nm, p)) }

def byteStep (t : ByteFiles N) : ByteOp N → ByteFiles N × FileAnswer
  | .open i nm =>
    if t.opened + 1 < 2147483648 then
      ({ file := Function.update t.file nm (some ((t.file nm).getD []))
         handle := Function.update t.handle i (some (nm, 0))
         opened := t.opened + 1 }, .ret 0)
    else ({ t with handle := Function.update t.handle i none }, .ret (-1))
  | .close i => t.on i fun _ _ _ => ({ t with handle := Function.update t.handle i none }, .ret 0)
  | .lseek i offset => t.on i fun nm _ _ => (t.at i nm offset, .ret 0)
  | .write i buf => t.on i fun nm p f =>
    ({ t.at i nm (p + buf.length) with file := Function.update t.file nm (some (overlay f p buf)) },
      .ret buf.length)
  | .read i count mem => t.on i fun nm p f =>
    (t.at i nm (p + min count (f.length - p)),
      .read (min count (f.length - p) : Nat) (place mem 0 ((f.drop p).take count)))
  | .fstat i => t.on i fun _ _ f => (t, .size 0 (UInt32.ofNat f.length))

/-- A read of `n` bytes at `p` does not meet the end of a file that fills its blocks. -/
def MissesEnd (len p n : Nat) : Prop := len % 940 = 0 → p < len ∧ p + n ≤ len

/-- The condition on what is done to an open handle. -/
def ByteOk (t : ByteFiles N) : ByteOp N → Prop
  | .lseek i offset => ∀ nm p f, t.handle i = some (nm, p) → t.file nm = some f → offset ≤ f.length
  | .write i buf => buf.length < 2147483648 ∧ ∀ nm p f, t.handle i = some (nm, p) → t.file nm = some f →
    lastBlk p buf.length + 2 < 4194304 ∧ KeepsRest f.length p buf.length
  | .read i count _ => count < 2147483648 ∧ ∀ nm p f, t.handle i = some (nm, p) → t.file nm = some f →
    MissesEnd f.length p count
  | _ => True

/-! ## 2. The calls of `fs.c` -/

variable {Digest : Type}

/-- What is done with handle `i`.  `stk` and `statSize` are what the stack of a call holds. -/
inductive StoreOp (Digest : Type) where
  | open (i : Nat) (storename filename : List UInt8) (flags mode : Int) (stk : FsStack Digest)
  | close (i : Nat)
  | lseek (i : Nat) (offset : UInt32)
  | write (i : Nat) (buf : List UInt8) (stk : FsStack Digest)
  | read (i : Nat) (mem : Nat → UInt8) (count : UInt32) (stk : FsStack Digest)
  | fstat (i : Nat) (stSize : UInt32) (stk : FsStack Digest) (statSize : UInt32)

/-- What it is for the byte strings. -/
def StoreOp.means (c : FsCrypto Digest) : StoreOp Digest → ByteOp FileName
  | .open i storename filename _ _ _ => .open i (openName c storename filename)
  | .close i => .close i
  | .lseek i offset => .lseek i offset.toNat
  | .write i buf _ => .write i buf
  | .read i mem count _ => .read i count.toNat mem
  | .fstat i _ _ _ => .fstat i

structure StoreState (Digest : Type) where
  world : World Digest (Disk Digest)
  handles : Nat → Option Cfs

def StoreState.start : StoreState Digest := ⟨⟨Disk.empty, 0, []⟩, fun _ => none⟩

def StoreState.on (s : StoreState Digest) (i : Nat) (go : Cfs → StoreState Digest × FileAnswer) :
    StoreState Digest × FileAnswer :=
  match s.handles i with
  | none => (s, .notOpen)
  | some h => go h

/-- A call for handle `i`, and the handle after it. -/
def StoreState.put (s : StoreState Digest) (i : Nat) (w : World Digest (Disk Digest)) (h : Option Cfs) :
    StoreState Digest :=
  ⟨w, Function.update s.handles i h⟩

variable [DecidableEq Digest]

def storeStep (e : FsEnv Digest (Disk Digest)) (s : StoreState Digest) :
    StoreOp Digest → StoreState Digest × FileAnswer
  | .open i storename filename flags mode stk =>
    let (r, h, w) := fsOpen e s.world ((s.handles i).getD ⟨-1, 0, Bytes.zero 32⟩) storename filename flags mode stk
    (s.put i w (if r = 0 then some h else none), .ret r)
  | .close i => s.on i fun h =>
    let (r, w) := fsClose e s.world h
    (s.put i w none, .ret r)
  | .lseek i offset => s.on i fun h =>
    let (r, h, w) := fsLseek e s.world h offset seekSet
    (s.put i w (some h), .ret (toInt32 r))
  | .write i buf stk => s.on i fun h =>
    let (r, h, w) := fsWrite e s.world h buf stk
    (s.put i w (some h), .ret r)
  | .read i mem count stk => s.on i fun h =>
    match fsRead e s.world h mem count stk with
    | none => (s, .notOpen)
    | some r => (s.put i r.world (some r.handle), if r.ret = -1 then .ret (-1) else .read r.ret r.buf)
  | .fstat i stSize stk statSize => s.on i fun h =>
    let (r, size, w) := fsFstat e s.world h stSize stk statSize
    (s.put i w (some h), .size r size)

/-! ## 3. What a store stands for -/

variable {c : FsCrypto Digest} {secret key : Bytes 32} {blks : List (CfsBlk Digest)} {s : StoreState Digest}
  {t : ByteFiles FileName} {i : Nat}

/-- The blocks hold the file. -/
def Stored (c : FsCrypto Digest) (secret key : Bytes 32) (blks : List (CfsBlk Digest)) (f : ByteFile) : Prop :=
  ∃ ds, IsFile c secret key blks ds ∧ content ds = f ∧ ds.length + 1 < 4194304

/-- The handle is for this file and position. -/
structure OnFile (c : FsCrypto Digest) (secret : Bytes 32) (w : World Digest (Disk Digest))
    (file : FileName → Option ByteFile) (h : Cfs) (q : FileName × Nat) : Prop where
  name : w.store.name h.fd = some q.1
  filepos : h.filepos.toNat = q.2
  stored : ∃ f, file q.1 = some f ∧ q.2 ≤ f.length ∧ Stored c secret h.keyData (w.store.files q.1) f

/-- The store has these files. -/
def HasFiles (c : FsCrypto Digest) (secret : Bytes 32) (w : World Digest (Disk Digest))
    (file : FileName → Option ByteFile) : Prop :=
  ∀ nm, file nm = none ∧ w.store.files nm = [] ∨
    ∃ f key, file nm = some f ∧ Stored c secret key (w.store.files nm) f

/-- Both handles are open, or none. -/
def Alike (rel : Cfs → FileName × Nat → Prop) : Option Cfs → Option (FileName × Nat) → Prop
  | none, none => True
  | some h, some q => rel h q
  | _, _ => False

/-- The store and the handles stand for the files of bytes.  No two handles have one descriptor. -/
structure Represents (c : FsCrypto Digest) (secret : Bytes 32) (s : StoreState Digest) (t : ByteFiles FileName) :
    Prop where
  opened : s.world.store.opened = t.opened
  unopened : ∀ fd : Int, (t.opened : Int) < fd → s.world.store.name fd = none
  files : HasFiles c secret s.world t.file
  handles : ∀ j, Alike (OnFile c secret s.world t.file) (s.handles j) (t.handle j)
  apart : ∀ j k h h', s.handles j = some h → s.handles k = some h' → h.fd = h'.fd → j = k

/-- The machines answer the same, and what they come to is represented. -/
def Agrees (c : FsCrypto Digest) (secret : Bytes 32) (a : StoreState Digest × FileAnswer)
    (b : ByteFiles FileName × FileAnswer) : Prop :=
  a.2 = b.2 ∧ Represents c secret a.1 b.1

theorem represents_start : Represents c secret (StoreState.start : StoreState Digest) .start where
  opened := rfl
  unopened := fun _ _ => rfl
  files := fun _ => Or.inl ⟨rfl, rfl⟩
  handles := fun _ => trivial
  apart := fun _ _ _ _ h => absurd h (Option.some_ne_none _).symm

theorem Stored.unique {key' : Bytes 32} {f f' : ByteFile} (h : Stored c secret key blks f)
    (h' : Stored c secret key' blks f') : key = key' := by
  obtain ⟨ds, hf, -⟩ := h
  obtain ⟨ds', hf', -⟩ := h'
  exact (hf.unique hf').1

theorem Alike.open {rel : Cfs → FileName × Nat → Prop} {o : Option Cfs} {q : Option (FileName × Nat)}
    (h : Alike rel o q) : o = none ∧ q = none ∨ ∃ h q', o = some h ∧ q = some q' ∧ rel h q' := by
  rcases o with _ | h' <;> rcases q with _ | q'
  · exact Or.inl ⟨rfl, rfl⟩
  · exact h.elim
  · exact h.elim
  · exact Or.inr ⟨h', q', rfl, rfl, h⟩

theorem Represents.onFile (hr : Represents c secret s t) {h : Cfs} (hi : s.handles i = some h) :
    ∃ q, t.handle i = some q ∧ OnFile c secret s.world t.file h q := by
  obtain ⟨hnone, -⟩ | ⟨h', q, hs, ht, hon⟩ := (hr.handles i).open
  · exact absurd (hi.symm.trans hnone) (Option.some_ne_none _)
  · obtain rfl := Option.some.inj (hi.symm.trans hs)
    exact ⟨q, ht, hon⟩

/-- A call on an open handle. -/
theorem Represents.agrees_on (hr : Represents c secret s t) {go : Cfs → StoreState Digest × FileAnswer}
    {go' : FileName → Nat → ByteFile → ByteFiles FileName × FileAnswer}
    (hgo : ∀ h nm p f, s.handles i = some h → t.handle i = some (nm, p) → t.file nm = some f →
      OnFile c secret s.world t.file h (nm, p) → Agrees c secret (go h) (go' nm p f)) :
    Agrees c secret (s.on i go) (t.on i go') := by
  obtain ⟨hs, ht⟩ | ⟨h, ⟨nm, p⟩, hs, ht, hon⟩ := (hr.handles i).open
  · simp only [StoreState.on, ByteFiles.on, hs, ht]
    exact ⟨rfl, hr⟩
  · obtain ⟨f, hf, -⟩ := hon.stored
    have hfile : t.file nm = some f := hf
    simp only [StoreState.on, ByteFiles.on, hs, ht, hfile]
    exact hgo h nm p f hs ht hfile hon

/-- **What a call leaves** that is for handle `i`: what the other handles stand for stays, and this one has a new
descriptor or its own. -/
theorem Represents.put {w : World Digest (Disk Digest)} {t' : ByteFiles FileName} {o : Option Cfs}
    {q : Option (FileName × Nat)} (hr : Represents c secret s t) (hopened : w.store.opened = t'.opened)
    (hunopened : ∀ fd : Int, (t'.opened : Int) < fd → w.store.name fd = none)
    (hfiles : HasFiles c secret w t'.file) (hhandle : t'.handle = Function.update t.handle i q)
    (hold : ∀ j h q, j ≠ i → s.handles j = some h → OnFile c secret s.world t.file h q →
      OnFile c secret w t'.file h q)
    (hnew : Alike (OnFile c secret w t'.file) o q)
    (hfd : ∀ h, o = some h → (∃ h₀, s.handles i = some h₀ ∧ h.fd = h₀.fd) ∨ s.world.store.name h.fd = none) :
    Represents c secret (s.put i w o) t' := by
  have hother {j : Nat} (hne : j ≠ i) : (s.put i w o).handles j = s.handles j := Function.update_of_ne hne _ _
  have hself : (s.put i w o).handles i = o := Function.update_self _ _ _
  -- a handle that is not the new one has another descriptor
  have hapart {j : Nat} {h h' : Cfs} (hne : j ≠ i) (hj : s.handles j = some h) (ho : o = some h') : h.fd ≠ h'.fd := by
    intro heq
    rcases hfd h' ho with ⟨h₀, hi, hsame⟩ | hnone
    · exact hne (hr.apart j i h h₀ hj hi (heq.trans hsame))
    · obtain ⟨q, -, hon⟩ := hr.onFile hj
      have hname := hon.name
      rw [heq, hnone] at hname
      exact Option.some_ne_none _ hname.symm
  refine ⟨hopened, hunopened, hfiles, fun j => ?_, fun j k h h' hj hk heq => ?_⟩
  · rcases eq_or_ne j i with rfl | hne
    · rw [hself, hhandle, Function.update_self]
      exact hnew
    · rw [hother hne, hhandle, Function.update_of_ne hne]
      obtain ⟨hs, ht⟩ | ⟨h, q, hs, ht, hon⟩ := (hr.handles j).open
      · rw [hs, ht]
        trivial
      · rw [hs, ht]
        exact hold j h q hne hs hon
  · rcases eq_or_ne j i with rfl | hji <;> rcases eq_or_ne k j with rfl | hkj
    · rfl
    · rw [hself] at hj
      rw [hother hkj] at hk
      exact absurd heq.symm (hapart hkj hk hj)
    · rfl
    · rcases eq_or_ne k i with rfl | hki
      · rw [hself] at hk
        rw [hother hji] at hj
        exact absurd heq (hapart hji hj hk)
      · rw [hother hji] at hj
        rw [hother hki] at hk
        exact hr.apart j k h h' hj hk heq

/-! ## 4. One call -/

variable {w : World Digest (Disk Digest)} {file file' : FileName → Option ByteFile} {nm : FileName} {p : Nat} {h : Cfs}

/-- A handle where one file may have grown, under its key. -/
theorem OnFile.changed {w' : World Digest (Disk Digest)} {q : FileName × Nat} (hon : OnFile c secret w file h q)
    (hname : w'.store.name h.fd = w.store.name h.fd)
    (hother : ∀ nm', nm' ≠ nm → w'.store.files nm' = w.store.files nm' ∧ file' nm' = file nm')
    (hthis : ∀ f, file nm = some f → Stored c secret h.keyData (w.store.files nm) f →
      ∃ f', file' nm = some f' ∧ f.length ≤ f'.length ∧
        Stored c secret h.keyData (w'.store.files nm) f') :
    OnFile c secret w' file' h q := by
  obtain ⟨f, hf, hle, hstored⟩ := hon.stored
  refine ⟨hname.trans hon.name, hon.filepos, ?_⟩
  rcases eq_or_ne q.1 nm with heq | hne
  · rw [heq] at hf hstored ⊢
    obtain ⟨f', hf', hgrown, hstored'⟩ := hthis f hf hstored
    exact ⟨f', hf', hle.trans hgrown, hstored'⟩
  · obtain ⟨hblks, hsame⟩ := hother q.1 hne
    exact ⟨f, hsame.trans hf, hle, hblks ▸ hstored⟩

/-- The files where one is another. -/
theorem HasFiles.changed {w' : World Digest (Disk Digest)} (hf : HasFiles c secret w file)
    (hother : ∀ nm', nm' ≠ nm → w'.store.files nm' = w.store.files nm' ∧ file' nm' = file nm')
    (hthis : ∃ f key, file' nm = some f ∧ Stored c secret key (w'.store.files nm) f) : HasFiles c secret w' file' := by
  intro nm'
  rcases eq_or_ne nm' nm with rfl | hne
  · exact Or.inr hthis
  · obtain ⟨hblks, hsame⟩ := hother nm' hne
    rw [hblks, hsame]
    exact hf nm'

theorem ByteFiles.at_self (ht : t.handle i = some (nm, p)) : t.at i nm p = t := by
  have hsame : Function.update t.handle i (some (nm, p)) = t.handle := by rw [← ht, Function.update_eq_self]
  rw [ByteFiles.at, hsame]

/-- A call that only moves the handle. -/
theorem Represents.moved {p' : Nat} {h' : Cfs} (hr : Represents c secret s t) (hs : s.handles i = some h)
    (hon : OnFile c secret s.world t.file h (nm, p)) (hsame : SameStore s.world w) (hfd : h'.fd = h.fd)
    (hkey : h'.keyData = h.keyData) (hpos : h'.filepos.toNat = p')
    (hle : ∀ f, t.file nm = some f → p' ≤ f.length) :
    Represents c secret (s.put i w (some h')) (t.at i nm p') := by
  have hname (fd : Int) : w.store.name fd = s.world.store.name fd := congrFun hsame.fds.name fd
  refine hr.put (hsame.fds.opened.trans hr.opened) ?_ ?_ rfl ?_ ?_ ?_
  · intro fd hlt
    rw [hname]
    exact hr.unopened fd hlt
  · intro nm'
    rw [hsame.files]
    exact hr.files nm'
  · intro j h₁ q _ _ hon₁
    obtain ⟨f, hf, hle₁, hstored⟩ := hon₁.stored
    exact ⟨(hname _).trans hon₁.name, hon₁.filepos, f, hf, hle₁, hsame.files ▸ hstored⟩
  · obtain ⟨f, hf, -, hstored⟩ := hon.stored
    refine ⟨?_, hpos, f, hf, hle f hf, ?_⟩
    · rw [hname, hfd]
      exact hon.name
    · rw [hkey, hsame.files]
      exact hstored
  · rintro h₁ ⟨⟩
    exact Or.inl ⟨h, hs, hfd⟩

/-- **`fs_close`.** -/
theorem Represents.close (random : Nat → UInt8) (hole : CfsBlk Digest) (hr : Represents c secret s t) (i : Nat) :
    Agrees c secret (storeStep (diskEnv c random secret hole) s (.close i)) (byteStep t (.close i)) := by
  refine hr.agrees_on fun h nm p f hs ht hf hon => ?_
  rw [fsClose_disk c random secret hole hon.name]
  refine ⟨rfl, hr.put hr.opened ?_ hr.files rfl ?_ trivial nofun⟩
  · intro fd hlt
    rw [World.shut_name]
    rcases eq_or_ne fd h.fd with rfl | hne
    · exact Function.update_self _ _ _
    · rw [Function.update_of_ne hne]
      exact hr.unopened fd hlt
  · intro j h₁ q hne hj hon₁
    have hfd : h₁.fd ≠ h.fd := fun heq => hne (hr.apart j i h₁ h hj hs heq)
    refine ⟨?_, hon₁.filepos, hon₁.stored⟩
    rw [World.shut_name, Function.update_of_ne hfd]
    exact hon₁.name

/-- **`fs_lseek`** to a place in the file. -/
theorem Represents.lseek (random : Nat → UInt8) (hole : CfsBlk Digest) (hr : Represents c secret s t) (i : Nat)
    (offset : UInt32) (hok : ByteOk t (.lseek i offset.toNat)) :
    Agrees c secret (storeStep (diskEnv c random secret hole) s (.lseek i offset))
      (byteStep t (.lseek i offset.toNat)) := by
  refine hr.agrees_on fun h nm p f hs ht hf hon => ?_
  have hle : offset.toNat ≤ f.length := hok nm p f ht hf
  have hoff : offset ≠ 0xFFFFFFFF := by
    rintro rfl
    obtain ⟨f', hf', -, ds, hfile, hcontent, hsmall⟩ := hon.stored
    obtain rfl := Option.some.inj (hf.symm.trans hf')
    have hlen := hfile.content_le
    have hmax : (0xFFFFFFFF : UInt32).toNat = 4294967295 := by decide
    rw [hcontent] at hlen
    omega
  rw [fsLseek_to c random secret hole hon.name hoff]
  refine ⟨rfl, hr.moved hs hon (sameStore_moved hon.name _) rfl rfl rfl fun f' hf' => ?_⟩
  obtain rfl := Option.some.inj (hf.symm.trans hf')
  exact hle

/-- **`fs_fstat`.** -/
theorem Represents.fstat (random : Nat → UInt8) (hole : CfsBlk Digest) (hr : Represents c secret s t) (i : Nat)
    (stSize : UInt32) (stk : FsStack Digest) (statSize : UInt32) :
    Agrees c secret (storeStep (diskEnv c random secret hole) s (.fstat i stSize stk statSize))
      (byteStep t (.fstat i)) := by
  refine hr.agrees_on fun h nm p f hs ht hf hon => ?_
  obtain ⟨f', hf', hle, ds, hfile, hcontent, hsmall⟩ := hon.stored
  obtain rfl : f = f' := Option.some.inj (hf.symm.trans hf')
  obtain ⟨w', hstat, hsame⟩ := fsFstat_leaves random hole hon.name hfile hsmall stSize stk statSize
  have hstays := hr.moved hs hon hsame rfl rfl hon.filepos fun f' hf' => Option.some.inj (hf.symm.trans hf') ▸ hle
  rw [ByteFiles.at_self ht] at hstays
  rw [hstat, hcontent]
  exact ⟨rfl, hstays⟩

/-- A read that misses the end asks for no block that is not there. -/
theorem served_of_missesEnd {ds : List CfsData} {n : Nat} (hfile : IsFile c secret key blks ds)
    (hsmall : ds.length + 1 < 4194304) (hend : MissesEnd (content ds).length p n) :
    Served (content ds).length ds.length p n := by
  have hle := hfile.content_le
  refine ⟨fun ⟨hfull, hmeets⟩ => ?_, by omega⟩
  have hin := hend (by omega)
  omega

/-- **`fs_read`** that misses the end of full blocks. -/
theorem Represents.read (random : Nat → UInt8) (hole : CfsBlk Digest) (hr : Represents c secret s t) (i : Nat)
    (mem : Nat → UInt8) (count : UInt32) (stk : FsStack Digest) (hok : ByteOk t (.read i count.toNat mem)) :
    Agrees c secret (storeStep (diskEnv c random secret hole) s (.read i mem count stk))
      (byteStep t (.read i count.toNat mem)) := by
  refine hr.agrees_on fun h nm p f hs ht hf hon => ?_
  obtain ⟨hcount, hopen⟩ := hok
  obtain ⟨f', hf', hle, ds, hfile, hcontent, hsmall⟩ := hon.stored
  obtain rfl : f = f' := Option.some.inj (hf.symm.trans hf')
  have hpos : h.filepos.toNat = p := hon.filepos
  have hp : h.filepos.toNat ≤ (content ds).length := by rw [hpos, hcontent]; exact hle
  have hserved := served_of_missesEnd hfile hsmall (hcontent ▸ hopen nm p f ht hf)
  obtain ⟨r, hread, honly, hgives, -⟩ := fsRead_leaves random hole hon.name hfile hsmall hp hcount mem stk
  have hreads := hgives (hpos ▸ hserved)
  rw [hpos, hcontent] at hreads
  have hret : r.ret ≠ -1 := by
    rw [hreads.ret]
    omega
  simp only [hread, if_neg hret]
  refine ⟨?_, hr.moved hs hon honly.same honly.fd honly.key hreads.filepos fun f' hf' => ?_⟩
  · rw [hreads.ret, hreads.buf]
  · obtain rfl := Option.some.inj (hf.symm.trans hf')
    omega

/-- **`fs_write`** that keeps the rest. -/
theorem Represents.write (random : Nat → UInt8) (hole : CfsBlk Digest) (hc : c.Decrypts)
    (hr : Represents c secret s t) (i : Nat) (buf : List UInt8) (stk : FsStack Digest)
    (hok : ByteOk t (.write i buf)) :
    Agrees c secret (storeStep (diskEnv c random secret hole) s (.write i buf stk)) (byteStep t (.write i buf)) := by
  refine hr.agrees_on fun h nm p f hs ht hf hon => ?_
  obtain ⟨hcount, hopen⟩ := hok
  obtain ⟨hreach, hkeep⟩ := hopen nm p f ht hf
  obtain ⟨f', hf', hle, ds, hfile, hcontent, hsmall⟩ := hon.stored
  obtain rfl : f = f' := Option.some.inj (hf.symm.trans hf')
  have hpos : h.filepos.toNat = p := hon.filepos
  obtain ⟨h', w', ds', hwrite, hover⟩ := fsWrite_keeps random hole hc hon.name hfile (by rw [hpos, hcontent]; exact hle)
    hcount (by rw [hpos]; omega) (by rw [hpos, hcontent]; exact hkeep) stk
  have hstored : Stored c secret h.keyData (w'.store.files nm) (overlay f p buf) := by
    refine ⟨ds', hover.file, ?_, ?_⟩
    · rw [hover.content, hcontent, hpos]
    · rw [hover.blocks, hpos]
      omega
  have hlen : (overlay f p buf).length = max f.length (p + buf.length) := length_overlay hle
  have hother (nm' : FileName) (hne : nm' ≠ nm) : w'.store.files nm' = s.world.store.files nm' ∧
      Function.update t.file nm (some (overlay f p buf)) nm' = t.file nm' :=
    ⟨hover.same.files nm' hne, Function.update_of_ne hne _ _⟩
  have hself : Function.update t.file nm (some (overlay f p buf)) nm = some (overlay f p buf) :=
    Function.update_self _ _ _
  rw [hwrite]
  refine ⟨rfl, hr.put (hover.same.fds.opened.trans hr.opened) ?_ (hr.files.changed hother ⟨_, _, hself, hstored⟩) rfl
    ?_ ?_ ?_⟩
  · intro fd hlt
    rw [hover.same.fds.name]
    exact hr.unopened fd hlt
  · intro j h₁ q _ _ hon₁
    refine hon₁.changed (congrFun hover.same.fds.name _) hother fun f₁ hf₁ hstored₁ => ?_
    obtain rfl : f = f₁ := Option.some.inj (hf.symm.trans hf₁)
    have hkey : h₁.keyData = h.keyData := hstored₁.unique ⟨ds, hfile, hcontent, hsmall⟩
    exact ⟨_, hself, hlen.ge.trans' (Nat.le_max_left _ _), hkey ▸ hstored⟩
  · refine ⟨?_, hover.filepos.trans (by rw [hpos]), _, hself, hlen.ge.trans' (Nat.le_max_right _ _), ?_⟩
    · rw [hover.same.fds.name, hover.fd]
      exact hon.name
    · rw [hover.key]
      exact hstored
  · rintro h₁ ⟨⟩
    exact Or.inl ⟨h, hs, hover.fd⟩

/-- A call that opens a file: the others may have it open too. -/
theorem Represents.opens {w : World Digest (Disk Digest)} {h' : Cfs} {ds : List CfsData} {f : ByteFile}
    (hr : Represents c secret s t) (ho : OpensFile c secret s.world w nm h' ds) (hcontent : content ds = f)
    (hsmall : ds.length + 1 < 4194304)
    (hsame : ∀ f₁ key, t.file nm = some f₁ → Stored c secret key (s.world.store.files nm) f₁ →
      f = f₁ ∧ Stored c secret key (w.store.files nm) f) :
    Represents c secret (s.put i w (some h')) ⟨Function.update t.file nm (some f),
      Function.update t.handle i (some (nm, 0)), t.opened + 1⟩ := by
  have hstored : Stored c secret h'.keyData (w.store.files nm) f := ⟨ds, ho.file, hcontent, hsmall⟩
  have hself : Function.update t.file nm (some f) nm = some f := Function.update_self _ _ _
  have hother (nm' : FileName) (hne : nm' ≠ nm) : w.store.files nm' = s.world.store.files nm' ∧
      Function.update t.file nm (some f) nm' = t.file nm' :=
    ⟨ho.files nm' hne, Function.update_of_ne hne _ _⟩
  have hname : w.store.name = Function.update s.world.store.name (s.world.store.opened + 1 : Int) (some nm) :=
    ho.fds.name.trans World.opening_name
  have hfresh : s.world.store.name (s.world.store.opened + 1 : Int) = none :=
    hr.unopened _ (by rw [hr.opened]; exact Int.lt_succ _)
  refine hr.put (ho.fds.opened.trans (congrArg Nat.succ hr.opened)) ?_
    (hr.files.changed hother ⟨_, _, hself, hstored⟩) rfl ?_ ?_ ?_
  · intro fd hlt
    have hopened := hr.opened
    have hgt : (t.opened : Int) + 1 < fd := hlt
    rw [hname, Function.update_of_ne (by omega)]
    exact hr.unopened fd (by omega)
  · intro j h₁ q _ hj hon₁
    have hfd : h₁.fd ≠ s.world.store.opened + 1 := by
      intro heq
      have hopen := hon₁.name
      rw [heq, hfresh] at hopen
      exact Option.some_ne_none _ hopen.symm
    refine hon₁.changed (by rw [hname, Function.update_of_ne hfd]) hother fun f₁ hf₁ hstored₁ => ?_
    obtain ⟨rfl, hkept⟩ := hsame f₁ _ hf₁ hstored₁
    exact ⟨f, hself, Nat.le_refl _, hkept⟩
  · refine ⟨?_, congrArg UInt32.toNat ho.filepos, f, hself, Nat.zero_le _, hstored⟩
    rw [hname, ho.fd, Function.update_self]
  · rintro h₁ ⟨⟩
    exact Or.inr (ho.fd ▸ hfresh)

/-- **`fs_open`.** -/
theorem Represents.open (random : Nat → UInt8) (hole : CfsBlk Digest) (hc : c.Decrypts)
    (hr : Represents c secret s t) (i : Nat) (st fn : List UInt8) (flags mode : Int) (stk : FsStack Digest) :
    Agrees c secret (storeStep (diskEnv c random secret hole) s (.open i st fn flags mode stk))
      (byteStep t (.open i (openName c st fn))) := by
  rw [storeStep, byteStep, ← hr.opened]
  rcases Nat.lt_or_ge (s.world.store.opened + 1) 2147483648 with hmany | hmany
  · rw [if_pos hmany]
    rcases hr.files (openName c st fn) with ⟨hnone, hnil⟩ | ⟨f, key, hf, ds, hfile, hcontent, hsmall⟩
    · obtain ⟨h', w', hopen, ho⟩ := fsOpen_new random secret hole hc s.world
        ((s.handles i).getD ⟨-1, 0, Bytes.zero 32⟩) st fn flags mode stk hmany hnil
      rw [hopen, hnone, hr.opened]
      refine ⟨rfl, hr.opens ho rfl (by decide) fun f₁ _ hf₁ _ => ?_⟩
      exact absurd (hf₁.symm.trans hnone) (Option.some_ne_none _)
    · obtain ⟨h', w', hopen, ho, hfiles⟩ := fsOpen_old random hole s.world
        ((s.handles i).getD ⟨-1, 0, Bytes.zero 32⟩) st fn flags mode stk hmany hfile hsmall
      rw [hopen, hf, hr.opened]
      refine ⟨rfl, hr.opens ho hcontent hsmall fun f₁ key₁ hf₁ hstored₁ => ?_⟩
      obtain rfl := Option.some.inj (hf.symm.trans hf₁)
      exact ⟨rfl, hfiles.symm ▸ hstored₁⟩
  · rw [if_neg (Nat.not_lt.mpr hmany), fsOpen_full c random secret hole _ _ st fn flags mode stk hmany]
    exact ⟨rfl, hr.put rfl (hr.opened ▸ hr.unopened) hr.files rfl (fun _ _ _ _ _ hon => hon) trivial nofun⟩

/-- **One call** that meets the condition. -/
theorem storeStep_simulates (random : Nat → UInt8) (secret : Bytes 32) (hole : CfsBlk Digest) (hc : c.Decrypts) :
    Simulates (storeStep (diskEnv c random secret hole)) (fun t op => byteStep t (op.means c))
      (fun t op => ByteOk t (op.means c)) (Represents c secret) := by
  rintro s t (⟨i, st, fn, flags, mode, stk⟩ | i | ⟨i, offset⟩ | ⟨i, buf, stk⟩ | ⟨i, mem, count, stk⟩ |
    ⟨i, stSize, stk, statSize⟩) hr hok
  · exact hr.open random hole hc i st fn flags mode stk
  · exact hr.close random hole i
  · exact hr.lseek random hole i offset hok
  · exact hr.write random hole hc i buf stk hok
  · exact hr.read random hole i mem count stk hok
  · exact hr.fstat random hole i stSize stk statSize

/-! ## 5. Runs -/

/-- **The store is files of bytes.**  From an empty store on, and for every device secret and random stream, `fs.c`
with its ciphers answers every call as the byte strings do, in every run that meets the condition. -/
theorem store_is_bytes (random : Nat → UInt8) (secret : Bytes 32) (hole : CfsBlk (Bytes 32))
    (ops : List (StoreOp (Bytes 32)))
    (hops : Allows (fun t op => byteStep t (op.means tropicCrypto)) (fun t op => ByteOk t (op.means tropicCrypto))
      ByteFiles.start ops) :
    answers (storeStep (diskEnv tropicCrypto random secret hole)) StoreState.start ops =
      answers (fun t op => byteStep t (op.means tropicCrypto)) ByteFiles.start ops :=
  ((storeStep_simulates random secret hole tropicCrypto_decrypt_encrypt).run ops represents_start hops).1

/-- One file, and handle 0 in it. -/
def oneFile (nm : FileName) (f : ByteFile) (p : Nat) : ByteFiles FileName :=
  ⟨Function.update (fun _ => none) nm (some f), Function.update (fun _ => none) 0 (some (nm, p)), 1⟩

theorem oneFile_open (nm : FileName) : (byteStep ByteFiles.start (.open 0 nm)).1 = oneFile nm [] 0 := rfl

theorem oneFile_write (nm : FileName) (f : ByteFile) (p : Nat) (buf : List UInt8) :
    (byteStep (oneFile nm f p) (.write 0 buf)).1 = oneFile nm (overlay f p buf) (p + buf.length) := by
  simp only [byteStep, ByteFiles.on, ByteFiles.at, oneFile, Function.update_self, Function.update_idem]

theorem oneFile_lseek (nm : FileName) (f : ByteFile) (p offset : Nat) :
    (byteStep (oneFile nm f p) (.lseek 0 offset)).1 = oneFile nm f offset := by
  simp only [byteStep, ByteFiles.on, ByteFiles.at, oneFile, Function.update_self, Function.update_idem]

/-- What handle 0 is for. -/
theorem oneFile_at {f f' : ByteFile} {nm nm' : FileName} {p p' : Nat}
    (hhandle : (oneFile nm f p).handle 0 = some (nm', p')) (hfile : (oneFile nm f p).file nm' = some f') :
    p' = p ∧ f' = f := by
  have hself : (oneFile nm f p).handle 0 = some (nm, p) := by simp [oneFile]
  obtain ⟨rfl, rfl⟩ := Prod.mk.inj (Option.some.inj (hself.symm.trans hhandle))
  have hfound : (oneFile nm f p).file nm = some f := by simp [oneFile]
  exact ⟨rfl, Option.some.inj (hfile.symm.trans hfound)⟩

def zeroBytesStack : FsStack (Bytes 32) :=
  ⟨⟨Bytes.zero 16, Bytes.zero 32, Bytes.zero 32, Bytes.zero 944⟩, Bytes.zero 944, 0⟩

/-- Two bytes are written to a new file.  Five are asked for from the second on, and then the length. -/
def twoByteOps : List (StoreOp (Bytes 32)) :=
  [.open 0 [1] [2] 0 0 zeroBytesStack, .write 0 [7, 8] zeroBytesStack, .lseek 0 1,
    .read 0 (fun _ => 0) 5 zeroBytesStack, .fstat 0 0 zeroBytesStack 0]

theorem twoByteOps_allowed (nm : FileName) : Allows byteStep ByteOk ByteFiles.start
    [.open 0 nm, .write 0 [7, 8], .lseek 0 1, .read 0 5 (fun _ => 0), .fstat 0] := by
  refine ⟨trivial, ⟨by decide, ?_⟩, ?_, ⟨by decide, ?_⟩, trivial, trivial⟩
  · beta_reduce
    rw [oneFile_open]
    rintro nm' p f hhandle hfile
    obtain ⟨rfl, rfl⟩ := oneFile_at hhandle hfile
    exact ⟨by decide, Or.inl (by decide)⟩
  · beta_reduce
    rw [oneFile_open, oneFile_write]
    rintro nm' p f hhandle hfile
    obtain ⟨rfl, rfl⟩ := oneFile_at hhandle hfile
    decide
  · beta_reduce
    rw [oneFile_open, oneFile_write, oneFile_lseek]
    rintro nm' p f hhandle hfile
    obtain ⟨rfl, rfl⟩ := oneFile_at hhandle hfile
    exact fun hfull => absurd hfull (by decide)

/-- That run on a store with an all-zero secret. -/
theorem store_is_bytes_two :
    answers (storeStep (diskEnv tropicCrypto (fun _ => 0) (Bytes.zero 32) zeroBytesStack.blk)) StoreState.start
        twoByteOps =
      answers (fun t op => byteStep t (op.means tropicCrypto)) ByteFiles.start twoByteOps :=
  store_is_bytes (fun _ => 0) (Bytes.zero 32) zeroBytesStack.blk twoByteOps (twoByteOps_allowed _)

end AndixOs.Fs
