/-
# The buffers of the daemon's file names

`get_fs_string` and `get_fs_pathstring` build a name in a buffer of the caller with one `strncat`
after the other, and count by hand how many bytes are left.  What they pass on is the room left,
but `strncat` writes a `NUL` behind what it was asked for.  `Wire` has the two functions on lists
of characters, which is all the system calls see; here they are on byte memory, because the
question is which bytes they write.

A name takes 153 characters and a `NUL`.  The buffers of `tz_fs_open` and `tz_fs_remove` have 150
bytes, so the ending is left out and the last `NUL` is written behind the buffer
(`getFsString_overruns`); with 154 bytes all is as it should be (`getFsString_builds_iff`).
-/
import AndixOs.Service.Refine
import AndixOs.Lib.CString

namespace AndixOs.Service.FsPath

open AndixOs

/-! ## 1. The functions -/

/-- `REE_FS_NAME`: two hashes of `TZ_FS_HASH_SIZE` bytes. -/
structure ReeFsName where
  dirname : Bytes 32
  filename : Bytes 32

/-- The bytes of a string. -/
def ascii (cs : List Char) : List UInt8 := cs.map fun c => UInt8.ofNat c.toNat

/-- An `int` passed as a `size_t`. -/
def sizeT (n : Int) : Nat := (n % 4294967296).toNat

/-- The loop over a hash: `tstr` holds the two digits of a byte. -/
def catHash (string : Nat) : List UInt8 → Mem → Int → Option (Mem × Int)
  | [], m, sizeLeft => some (m, sizeLeft)
  | b :: hash, m, sizeLeft =>
    let tstr := ascii (hexByte b)
    match AndixOs.strncat m string tstr (sizeT sizeLeft) with
    | none => none
    | some m => catHash string hash m (sizeLeft - tstr.length)

/-- The first half of both functions: the root and the digits of `dirname`. -/
def catDir (m : Mem) (fsName : ReeFsName) (string maxlen : Nat) : Option (Mem × Int) :=
  match AndixOs.strncat (memset m string 0 maxlen) string (ascii tzRoot) (sizeT maxlen) with
  | none => none
  | some m => catHash string fsName.dirname.toList m (maxlen - tzRoot.length)

/-- `get_fs_pathstring`. -/
def getFsPathstring (m : Mem) (fsName : ReeFsName) (string maxlen : Nat) : Option Mem :=
  (catDir m fsName string maxlen).map fun r => r.1

/-- `get_fs_string`. -/
def getFsString (m : Mem) (fsName : ReeFsName) (string maxlen : Nat) : Option Mem :=
  match catDir m fsName string maxlen with
  | none => none
  | some (m, sizeLeft) =>
    match AndixOs.strncat m string (ascii tzSeperator) (sizeT sizeLeft) with
    | none => none
    | some m =>
      match catHash string fsName.filename.toList m (sizeLeft - tzSeperator.length) with
      | none => none
      | some (m, sizeLeft) => AndixOs.strncat m string (ascii tzFend) (sizeT sizeLeft)

/-! ## 2. What a name should be -/

/-- The directory of a name. -/
def dirPath (n : ReeFsName) : List Char := tzRoot ++ hexName n.dirname.toList

/-- The whole path of a name. -/
def fsPath (n : ReeFsName) : List Char :=
  dirPath n ++ tzSeperator ++ hexName n.filename.toList ++ tzFend

/-- A call that builds `path` in a buffer of `maxlen` bytes and writes nothing outside. -/
def Builds (call : Option Mem) (m : Mem) (path : List Char) (string maxlen : Nat) : Prop :=
  ∃ m', call = some m' ∧ (∀ x, x < string ∨ string + maxlen ≤ x → m' x = m x) ∧
    strAt m' maxlen string = some (ascii path)

/-! ## 3. Characters -/

theorem ascii_length (cs : List Char) : (ascii cs).length = cs.length := List.length_map _

theorem ascii_append (cs ds : List Char) : ascii (cs ++ ds) = ascii cs ++ ascii ds :=
  List.map_append

theorem hexDigit_ascii : ∀ n < 16, UInt8.ofNat (hexDigit n).toNat ≠ 0 ∧ (hexDigit n).toNat < 128 := by
  decide

theorem hexByte_ascii (b : UInt8) : 0 ∉ ascii (hexByte b) ∧ ∀ c ∈ hexByte b, c.toNat < 128 := by
  have hb := b.toNat_lt
  obtain ⟨h1, h2⟩ := hexDigit_ascii (b.toNat / 16) (by omega)
  obtain ⟨h3, h4⟩ := hexDigit_ascii (b.toNat % 16) (by omega)
  constructor
  · simp only [ascii, hexByte, List.map_cons, List.map_nil, List.mem_cons, List.not_mem_nil,
      or_false, not_or]
    exact ⟨h1.symm, h3.symm⟩
  · intro c hc
    simp only [hexByte, List.mem_cons, List.not_mem_nil, or_false] at hc
    rcases hc with rfl | rfl
    · exact h2
    · exact h4

theorem ascii_hexName_cons (b : UInt8) (hash : List UInt8) :
    ascii (hexName (b :: hash)) = ascii (hexByte b) ++ ascii (hexName hash) := by
  rw [hexName, List.flatMap_cons, ascii_append]
  rfl

theorem dirPath_length (n : ReeFsName) : (dirPath n).length = 85 := by
  have hroot : tzRoot.length = 21 := by decide
  rw [dirPath, List.length_append, hexName_length, List.Vector.toList_length, hroot]

theorem fsPath_eq (n : ReeFsName) : fsPath n = storePath n.dirname n.filename ++ tzFend := by
  simp only [fsPath, dirPath, storePath]

theorem storePath_length (s f : Bytes 32) : (storePath s f).length = 150 := by
  have hroot : tzRoot.length = 21 := by decide
  have hsep : tzSeperator.length = 1 := by decide
  simp only [storePath, List.length_append, hexName_length, List.Vector.toList_length, hroot, hsep]

theorem fsPath_length (n : ReeFsName) : (fsPath n).length = 153 := by
  have hend : tzFend.length = 3 := by decide
  rw [fsPath_eq, List.length_append, storePath_length, hend]

/-! ## 4. The buffer while the name is built -/

/-- The string at `string` is `cs`, and nothing else has changed since `m0`. -/
structure Appended (m0 m : Mem) (string : Nat) (cs : List UInt8) : Prop where
  str : StrIs m string cs
  rest : ∀ x, x < string ∨ string + cs.length < x → m x = m0 x

variable {m0 m : Mem} {string maxlen : Nat} {cs : List UInt8}

theorem sizeT_of_nonneg {n : Nat} (h : n < 4294967296) : sizeT n = n := by
  unfold sizeT
  omega

/-- One `strncat`. -/
theorem Appended.strncat (ds : List UInt8) (n : Nat) (h : Appended m0 m string cs)
    (hnul : 0 ∉ ds) (hlen : cs.length < 4294967296) :
    ∃ m', AndixOs.strncat m string ds n = some m' ∧ Appended m0 m' string (cs ++ ds.take n) := by
  obtain ⟨m', hm, hstr, hrest⟩ := strncat_spec (n := n) h.str hnul hlen
  refine ⟨m', hm, hstr, fun x hx => ?_⟩
  rw [List.length_append] at hx
  rw [hrest x (by omega), h.rest x (by omega)]

/-- The loop over a hash for which there is room. -/
theorem catHash_spec : ∀ (hash : List UInt8) (left : Nat) {m : Mem} {cs : List UInt8},
    Appended m0 m string cs → 2 * hash.length ≤ left → left < 4294967296 →
      cs.length + 2 * hash.length < 4294967296 →
      ∃ m', catHash string hash m left = some (m', ((left - 2 * hash.length : Nat) : Int)) ∧
        Appended m0 m' string (cs ++ ascii (hexName hash))
  | [], left, m, cs, h, _, _, _ => by
    refine ⟨m, rfl, ?_⟩
    rw [hexName, List.flatMap_nil]
    exact (List.append_nil cs).symm ▸ h
  | b :: hash, left, m, cs, h, hle, hleft, hlen => by
    rw [List.length_cons] at hle hlen
    have htwo : (ascii (hexByte b)).length = 2 := rfl
    obtain ⟨m1, hm1, h1⟩ := h.strncat (ascii (hexByte b)) left (hexByte_ascii b).1 (by omega)
    rw [List.take_of_length_le (by omega)] at h1
    have hlen1 : (cs ++ ascii (hexByte b)).length = cs.length + 2 := by rw [List.length_append, htwo]
    obtain ⟨m', hm', h'⟩ := catHash_spec hash (left - 2) h1 (by omega) (by omega) (by omega)
    have hcast : ((left : Int) - ((ascii (hexByte b)).length : Nat)) = ((left - 2 : Nat) : Int) := by
      rw [htwo]
      omega
    refine ⟨m', ?_, ?_⟩
    · rw [catHash]
      simp only [sizeT_of_nonneg hleft, hm1, hcast, hm', List.length_cons]
      congr 3
      omega
    · rw [ascii_hexName_cons, ← List.append_assoc]
      exact h'

/-- **The directory**: where there is room for it, it is built. -/
theorem catDir_spec (m : Mem) (n : ReeFsName) (string maxlen : Nat) (hmin : 85 ≤ maxlen)
    (hmax : maxlen < 4294967296) :
    ∃ m', catDir m n string maxlen = some (m', ((maxlen - 85 : Nat) : Int)) ∧
      Appended (memset m string 0 maxlen) m' string (ascii (dirPath n)) := by
  have hroot : (ascii tzRoot).length = 21 := by decide
  have hstart : Appended (memset m string 0 maxlen) (memset m string 0 maxlen) string [] :=
    ⟨strIs_nil (by rw [memset_apply, if_pos (by omega)]), fun _ _ => rfl⟩
  obtain ⟨m1, hm1, h1⟩ := hstart.strncat (ascii tzRoot) maxlen (by decide) (by decide)
  rw [List.nil_append, List.take_of_length_le (by omega)] at h1
  have hdir : n.dirname.toList.length = 32 := List.Vector.toList_length _
  obtain ⟨m2, hm2, h2⟩ := catHash_spec n.dirname.toList (maxlen - 21) h1 (by omega)
    (by omega) (by omega)
  have hroot : tzRoot.length = 21 := by decide
  have hcast : ((maxlen : Int) - ((tzRoot.length : Nat) : Int)) = ((maxlen - 21 : Nat) : Int) := by
    rw [hroot]
    omega
  refine ⟨m2, ?_, ?_⟩
  · rw [catDir, sizeT_of_nonneg hmax, hm1]
    simp only [hcast, hm2, hdir]
    congr 3
  · rw [dirPath, ascii_append]
    exact h2

/-- **The whole name**: the last `strncat` appends what there is room for. -/
theorem getFsString_spec (m : Mem) (n : ReeFsName) (string maxlen : Nat) (hmin : 150 ≤ maxlen)
    (hmax : maxlen < 4294967296) :
    ∃ m', getFsString m n string maxlen = some m' ∧
      Appended (memset m string 0 maxlen) m' string
        (ascii (storePath n.dirname n.filename) ++ (ascii tzFend).take (maxlen - 150)) := by
  have hsep : (ascii tzSeperator).length = 1 := by decide
  have hfile : n.filename.toList.length = 32 := List.Vector.toList_length _
  have hdir : (ascii (dirPath n)).length = 85 := (ascii_length _).trans (dirPath_length n)
  obtain ⟨m1, hm1, h1⟩ := catDir_spec m n string maxlen (by omega) hmax
  obtain ⟨m2, hm2, h2⟩ := h1.strncat (ascii tzSeperator) (maxlen - 85) (by decide) (by omega)
  rw [List.take_of_length_le (by omega)] at h2
  have hlen2 : (ascii (dirPath n) ++ ascii tzSeperator).length = 86 := by
    rw [List.length_append, hdir, hsep]
  obtain ⟨m3, hm3, h3⟩ := catHash_spec n.filename.toList (maxlen - 86) h2 (by omega)
    (by omega) (by omega)
  have hpath : ascii (dirPath n) ++ ascii tzSeperator ++ ascii (hexName n.filename.toList) =
      ascii (storePath n.dirname n.filename) := by
    rw [← ascii_append, ← ascii_append]
    rfl
  rw [hpath] at h3
  have hlen3 := (ascii_length _).trans (storePath_length n.dirname n.filename)
  obtain ⟨m4, hm4, h4⟩ := h3.strncat (ascii tzFend) (maxlen - 150) (by decide) (by omega)
  have hsep : tzSeperator.length = 1 := by decide
  have hcast : (((maxlen - 85 : Nat) : Int) - ((tzSeperator.length : Nat) : Int)) =
      ((maxlen - 86 : Nat) : Int) := by
    rw [hsep]
    omega
  have hleft : maxlen - 86 - 2 * n.filename.toList.length = maxlen - 150 := by
    rw [hfile]
    omega
  refine ⟨m4, ?_, h4⟩
  rw [hleft] at hm3
  rw [getFsString, hm1]
  simp only [sizeT_of_nonneg (show maxlen - 85 < 4294967296 by omega), hm2, hcast, hm3,
    sizeT_of_nonneg (show maxlen - 150 < 4294967296 by omega), hm4]

/-! ## 5. `tz_fs_open` and `tz_fs_remove` -/

/-- A string that ends inside the buffer was built by writing only there. -/
theorem Appended.builds {path : List Char} {call : Option Mem} {m' : Mem} (hcall : call = some m')
    (h : Appended (memset m string 0 maxlen) m' string (ascii path)) (hlen : path.length < maxlen) :
    Builds call m path string maxlen := by
  have hascii := ascii_length path
  refine ⟨m', hcall, fun x hx => ?_, strAt_mono h.str (by omega)⟩
  rw [h.rest x (by omega), memset_apply, if_neg (by omega)]

/-- **`get_fs_pathstring` builds the directory** in every buffer that can hold it. -/
theorem getFsPathstring_builds (m : Mem) (n : ReeFsName) (string maxlen : Nat) (hmin : 86 ≤ maxlen)
    (hmax : maxlen < 4294967296) :
    Builds (getFsPathstring m n string maxlen) m (dirPath n) string maxlen := by
  obtain ⟨m', hm, h⟩ := catDir_spec m n string maxlen (by omega) hmax
  refine h.builds ?_ (by rw [dirPath_length]; omega)
  rw [getFsPathstring, hm]
  rfl

/-- **How large the buffer has to be.**  `get_fs_string` builds the path and stays in the buffer
exactly when the buffer has 154 bytes. -/
theorem getFsString_builds_iff (m : Mem) (n : ReeFsName) (string maxlen : Nat)
    (hmax : maxlen < 4294967296) :
    Builds (getFsString m n string maxlen) m (fsPath n) string maxlen ↔ 154 ≤ maxlen := by
  constructor
  · rintro ⟨m', -, -, hstr⟩
    have hlt := strAt_length hstr
    rw [ascii_length, fsPath_length] at hlt
    exact hlt
  · intro hmin
    obtain ⟨m', hm, h⟩ := getFsString_spec m n string maxlen (by omega) hmax
    have hend : (ascii tzFend).length = 3 := by decide
    rw [List.take_of_length_le (by omega), ← ascii_append, ← fsPath_eq] at h
    exact h.builds hm (by rw [fsPath_length]; omega)

/-- What the 150 bytes of the callers hold: the path without its ending, and no `NUL`. -/
theorem getFsString_nameSize (m : Mem) (n : ReeFsName) (string : Nat) :
    ∃ m', getFsString m n string nameSize = some m' ∧
      strAt m' (nameSize + 1) string = some (ascii (storePath n.dirname n.filename)) ∧
      m' (string + nameSize) = 0 ∧
      ∀ x, x < string ∨ string + nameSize < x → m' x = m x := by
  obtain ⟨m', hm, h⟩ := getFsString_spec m n string nameSize (by decide) (by decide)
  have hnone : nameSize - 150 = 0 := rfl
  rw [hnone, List.take_zero, List.append_nil] at h
  have hlen := (ascii_length _).trans (storePath_length n.dirname n.filename)
  have hnul := h.str.nul
  rw [hlen] at hnul
  refine ⟨m', hm, strAt_mono h.str (by rw [hlen]; decide), hnul, fun x hx => ?_⟩
  unfold nameSize at *
  rw [h.rest x (by omega), memset_apply, if_neg (by omega)]

/-- **The lists of characters of `Wire` are what the system calls see**: the strings in the two
buffers, up to the first `NUL`. -/
theorem wire_strings (m : Mem) (n : ReeFsName) (string : Nat) :
    (∃ m', getFsString m n string nameSize = some m' ∧ strAt m' (nameSize + 1) string =
      some (ascii (Service.getFsString n.dirname.toList n.filename.toList))) ∧
    ∃ m', getFsPathstring m n string nameSize = some m' ∧ strAt m' nameSize string =
      some (ascii (Service.getFsPathstring n.dirname.toList)) := by
  constructor
  · obtain ⟨m', hm, hstr, -⟩ := getFsString_nameSize m n string
    exact ⟨m', hm, by rw [hstr, getFsString_eq]⟩
  · obtain ⟨m', hm, -, hstr⟩ := getFsPathstring_builds m n string nameSize (by decide) (by decide)
    refine ⟨m', hm, ?_⟩
    have hfirst : strncat [] tzRoot nameSize = tzRoot := by decide
    rw [hstr, Service.getFsPathstring, hfirst, Service.catHash_eq _ _ _ (by
      rw [List.Vector.toList_length]
      decide)]
    rfl

theorem ascii_injective : ∀ {cs ds : List Char}, (∀ c ∈ cs, c.toNat < 128) →
    (∀ d ∈ ds, d.toNat < 128) → ascii cs = ascii ds → cs = ds
  | [], [], _, _, _ => rfl
  | [], d :: ds, _, _, h => by cases h
  | c :: cs, [], _, _, h => by cases h
  | c :: cs, d :: ds, hcs, hds, h => by
    obtain ⟨hhead, htail⟩ := List.cons.inj h
    have hc := hcs c List.mem_cons_self
    have hd := hds d List.mem_cons_self
    have hnat : c.toNat = d.toNat := by
      have h8 := congrArg UInt8.toNat hhead
      simp only [UInt8.toNat_ofNat'] at h8
      omega
    rw [Char.toNat_inj.mp hnat, ascii_injective (fun x hx => hcs x (List.mem_cons_of_mem c hx))
      (fun x hx => hds x (List.mem_cons_of_mem d hx)) htail]

theorem storePath_ascii (s f : Bytes 32) : ∀ c ∈ storePath s f, c.toNat < 128 := by
  have hroot : tzRoot.all (fun c => decide (c.toNat < 128)) = true := by decide
  have hsep : tzSeperator.all (fun c => decide (c.toNat < 128)) = true := by decide
  simp only [List.all_eq_true, decide_eq_true_eq] at hroot hsep
  have hhex : ∀ (hash : List UInt8), ∀ c ∈ hexName hash, c.toNat < 128 := by
    intro hash c hc
    obtain ⟨b, -, hb⟩ := List.mem_flatMap.mp hc
    exact (hexByte_ascii b).2 c hb
  intro c hc
  simp only [storePath, List.mem_append] at hc
  rcases hc with ((hc | hc) | hc) | hc
  · exact hroot c hc
  · exact hhex _ c hc
  · exact hsep c hc
  · exact hhex _ c hc

/-- **Different names are different strings**, even without the ending. -/
theorem getFsString_injective {m m' r r' : Mem} {n n' : ReeFsName} {string string' : Nat}
    (h : getFsString m n string nameSize = some r) (h' : getFsString m' n' string' nameSize = some r')
    (heq : strAt r (nameSize + 1) string = strAt r' (nameSize + 1) string') : n = n' := by
  obtain ⟨t, ht, hstr, -⟩ := getFsString_nameSize m n string
  obtain ⟨t', ht', hstr', -⟩ := getFsString_nameSize m' n' string'
  obtain rfl := Option.some.inj (ht.symm.trans h)
  obtain rfl := Option.some.inj (ht'.symm.trans h')
  rw [hstr, hstr'] at heq
  obtain ⟨hdir, hfile⟩ := storePath_injective (ascii_injective (storePath_ascii _ _)
    (storePath_ascii _ _) (Option.some.inj heq))
  cases n
  cases n'
  simp_all

/-- **The names of `tz_fs_open` and `tz_fs_remove` do not fit.**  For every name, and wherever the
buffer lies, the byte behind the buffer is set to 0, and what stands there then is not the path. -/
theorem getFsString_overruns (m : Mem) (n : ReeFsName) (string : Nat) :
    ¬ Builds (getFsString m n string nameSize) m (fsPath n) string nameSize ∧
      ∃ m', getFsString m n string nameSize = some m' ∧ m' (string + nameSize) = 0 ∧
        strAt m' (nameSize + 1) string ≠ some (ascii (fsPath n)) := by
  refine ⟨fun h => absurd ((getFsString_builds_iff m n string nameSize (by decide)).mp h) (by decide), ?_⟩
  obtain ⟨m', hm, hstr, hnul, -⟩ := getFsString_nameSize m n string
  refine ⟨m', hm, hnul, fun heq => ?_⟩
  have hlen := congrArg List.length (Option.some.inj (hstr.symm.trans heq))
  rw [ascii_length, ascii_length, storePath_length, fsPath_length] at hlen
  exact absurd hlen (by decide)

/-- The name of two hashes of zeros, in a buffer of memory full of ones: the one behind the buffer
is gone. -/
theorem getFsString_zeros :
    ¬ Builds (getFsString (fun _ => 1) ⟨Bytes.zero 32, Bytes.zero 32⟩ 0x7E000000 nameSize)
        (fun _ => 1) (fsPath ⟨Bytes.zero 32, Bytes.zero 32⟩) 0x7E000000 nameSize ∧
      ∃ m', getFsString (fun _ => 1) ⟨Bytes.zero 32, Bytes.zero 32⟩ 0x7E000000 nameSize = some m' ∧
        m' (0x7E000000 + nameSize) = 0 := by
  refine ⟨fun h => absurd ((getFsString_builds_iff _ _ _ _ (by decide)).mp h) (by decide), ?_⟩
  obtain ⟨m', hm, -, hnul, -⟩ := getFsString_nameSize (fun _ => 1) ⟨Bytes.zero 32, Bytes.zero 32⟩
    0x7E000000
  exact ⟨m', hm, hnul⟩

end AndixOs.Service.FsPath
