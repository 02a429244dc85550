/-
# What is encrypted for the normal world

`sample_encrypt` and `sample_decrypt` work on two buffers of the normal world: one has the plain bytes and
one a pack, that is a vector, a length and the encrypted bytes (`crypt_pack_t`).  Three lengths take
part: those of the buffers, and the one in the pack.

Neither function compares the length in the pack with the size of the buffer that the pack is in, and both
read it before they know that the buffer has room for it.  `sampleCrypt_right_iff` says for which
buffers they stay inside all the same, and that a pack is decrypted to what was encrypted.
-/
import AndixOs.Trustlet.KeyStore

namespace AndixOs.Trustlet

open AndixOs.Tee (teeSuccess teeErrorBadParameters teeErrorOutOfMemory)

/-! ## 1. Memory that is read and written -/

def teeErrorShortBuffer : UInt32 := 0xFFFF0010

/-- What came of a call: what it returned, if it is not asking for a PIN yet, the memory, and the accesses
through the pointers of the two buffers. -/
structure CryptRun where
  result : Option UInt32
  mem : Mem
  accesses : List Access

def Memref.Contains (r : Memref) (x : Nat) : Prop := r.buffer ≤ x ∧ x < r.buffer + r.size.toNat

/-- What a call gets from the device: the files of the keys, the lines that are typed, random bytes, and
blocks of the heap, with what is in them. -/
structure Device where
  files : UInt32 → Option (List UInt8)
  entries : List PinEntry
  entropy : Bytes 16
  heap : Nat → Option (List UInt8)
  heap_length : ∀ n block, heap n = some block → block.length = n

/-! ## 2. The two functions -/

/-- `pack->datasize`. -/
def datasize (m : Mem) (pack : Nat) : UInt32 := word m (pack + 16)

/-- The rounds of the loop of `aes_crypt_cbc`, where the length is of the type `int`. -/
def cbcRounds (length : UInt32) : Nat :=
  if length.toNat < 2147483648 then (length.toNat + 15) / 16 else 0

/-- `aes_crypt_cbc`, decrypting in memory: each block is written before the next one is read. -/
def cbcDecryptAt (decrypt : Bytes 16 → Bytes 16) : Nat → Bytes 16 → Nat → Nat → Mem → Mem × List Access
  | 0, _, _, _, m => (m, [])
  | n + 1, iv, input, output, m =>
    let temp := firstBlock 16 (rowAt m input 16)
    let m1 := putRow m output (decrypt temp).toList
    let m2 := putRow m1 output (xorBytes (firstBlock 16 (rowAt m1 output 16)) iv).toList
    let rest := cbcDecryptAt decrypt n temp (input + 16) (output + 16) m2
    (rest.1, .read input 16 :: .write output 16 :: .read output 16 :: rest.2)

section Code

variable (encrypt decrypt : Bytes 32 → Bytes 16 → Bytes 16) (hash : List UInt8 → Bytes 32)

/-- `sample_encrypt`. -/
def sampleEncrypt (d : Device) (m : Mem) (paramTypes keyId : UInt32) (plain out : Memref) : CryptRun :=
  if paramTypes ≠ teeParamTypes 1 0xC 0xC 0 then ⟨some teeErrorBadParameters, m, []⟩
  else if plain.size % 16 ≠ 0 then ⟨some teeErrorBadParameters, m, []⟩
  else
    let pack := out.buffer
    if plain.size ≠ datasize m pack then ⟨some teeErrorShortBuffer, m, [.read (pack + 16) 4]⟩
    else
      let key := readKey decrypt hash (d.files keyId) d.entries
      if key.result ≠ some teeSuccess then ⟨key.result, m, [.read (pack + 16) 4]⟩
      else
        let masterkey := firstBlock 32 (key.decryptedKey.getD [])
        let m1 := putRow m pack d.entropy.toList
        let iv := firstBlock 16 (rowAt m1 pack 16)
        match d.heap (datasize m1 pack).toNat with
        | none => ⟨some teeErrorOutOfMemory, m1, [.read (pack + 16) 4, .write pack 16, .read pack 16]⟩
        | some block =>
          let rounds := cbcRounds plain.size
          let input := rowAt m1 plain.buffer (rounds * 16)
          let encData := overlay block 0 (cbcEncrypt (encrypt masterkey) rounds iv input).1
          let n := (datasize m1 pack).toNat
          ⟨some teeSuccess, putRow m1 (pack + 20) (encData.take n),
            [.read (pack + 16) 4, .write pack 16, .read pack 16, .read plain.buffer (rounds * 16),
              .write (pack + 20) n]⟩

/-- `sample_decrypt`. -/
def sampleDecrypt (d : Device) (m : Mem) (paramTypes keyId : UInt32) (inp out : Memref) : CryptRun :=
  if paramTypes ≠ teeParamTypes 1 0xC 0xC 0 then ⟨some teeErrorBadParameters, m, []⟩
  else
    let pack := inp.buffer
    if datasize m pack % 16 ≠ 0 then ⟨some teeErrorBadParameters, m, [.read (pack + 16) 4]⟩
    else if out.size < datasize m pack then ⟨some teeErrorShortBuffer, m, [.read (pack + 16) 4]⟩
    else
      let key := readKey decrypt hash (d.files keyId) d.entries
      if key.result ≠ some teeSuccess then ⟨key.result, m, [.read (pack + 16) 4]⟩
      else
        let masterkey := firstBlock 32 (key.decryptedKey.getD [])
        let iv := firstBlock 16 (rowAt m pack 16)
        let r := cbcDecryptAt (decrypt masterkey) (cbcRounds (datasize m pack)) iv (pack + 20) out.buffer m
        ⟨some teeSuccess, r.1, .read (pack + 16) 4 :: .read pack 16 :: r.2⟩

end Code

/-! ## 3. What is in the buffers -/

variable {encrypt decrypt : Bytes 32 → Bytes 16 → Bytes 16} {hash : List UInt8 → Bytes 32}
  {cipher : Bytes 16 → Bytes 16} {m m' : Mem} {plain out pack other inp : Memref} {d d' : Device}
  {paramTypes keyId : UInt32} {i j n x : Nat} {key key' : List UInt8}

/-- The bytes of the pack from `i` up to `j` are in its buffer, or go on in the other one. -/
def Covers (pack other : Memref) (i j : Nat) : Prop :=
  j ≤ pack.size.toNat ∨ (other.buffer ≤ pack.buffer + max i pack.size.toNat ∧
    pack.buffer + j ≤ other.buffer + other.size.toNat)

instance : Decidable (Covers pack other i j) := inferInstanceAs (Decidable (_ ∨ _))

/-- **Bytes of the pack** are in the buffers. -/
theorem covers_iff (hij : i < j) : Covers pack other i j ↔
    ∀ x, pack.buffer + i ≤ x → x < pack.buffer + j → pack.Contains x ∨ other.Contains x := by
  simp only [Covers, Memref.Contains]
  constructor
  · intro h x hlow hhigh
    omega
  · intro h
    by_cases hj : j ≤ pack.size.toNat
    · exact Or.inl hj
    · have hfirst := h (pack.buffer + max i pack.size.toNat) (by omega) (by omega)
      have hlast := h (pack.buffer + j - 1) (by omega) (by omega)
      exact Or.inr ⟨by omega, by omega⟩

theorem Covers.mono (h : Covers pack other 0 j) (hn : n ≤ j) (hi : i < n) : Covers pack other i n :=
  (covers_iff hi).mpr fun x hlow hhigh =>
    (covers_iff (by omega)).mp h x (by omega) (by omega)

/-- What is touched is in one of the two buffers. -/
def Inside (accesses : List Access) (pack other : Memref) : Prop :=
  ∀ x, Touched x accesses → pack.Contains x ∨ other.Contains x

/-- Accesses to these bytes of the pack, and beside them to the other buffer. -/
theorem inside_iff {accesses : List Access} (hij : i < j)
    (hpack : ∀ x, pack.buffer + i ≤ x → x < pack.buffer + j → Touched x accesses)
    (hother : ∀ x, Touched x accesses →
      (pack.buffer + i ≤ x ∧ x < pack.buffer + j) ∨ other.Contains x) :
    Inside accesses pack other ↔ Covers pack other i j := by
  rw [covers_iff hij]
  constructor
  · intro h x hlow hhigh
    exact h x (hpack x hlow hhigh)
  · intro h x hx
    rcases hother x hx with ⟨hlow, hhigh⟩ | hin
    · exact h x hlow hhigh
    · exact Or.inr hin

theorem inside_header : Inside [.read (pack.buffer + 16) 4] pack other ↔ Covers pack other 16 20 := by
  refine inside_iff (by decide) (fun x _ _ => ?_) (fun x h => ?_)
  · simp only [Touched]
    omega
  · simp only [Touched, or_false] at h
    exact Or.inl (by omega)

/-- A block is read as it was written. -/
theorem rowAt_putBlock (block : Bytes 16) : rowAt (putRow m j block.toList) j 16 = block.toList := by
  have hrow := rowAt_putRow (l := block.toList) (m := m) (a := j)
  rwa [List.Vector.toList_length] at hrow

theorem firstBlock_putBlock (block : Bytes 16) :
    firstBlock 16 (rowAt (putRow m j block.toList) j 16) = block := by
  rw [rowAt_putBlock, ← List.append_nil block.toList, firstBlock_append]

/-- The vector is before the length. -/
theorem datasize_putRow (iv : Bytes 16) : datasize (putRow m j iv.toList) j = datasize m j :=
  word_congr fun x hlow _ => putRow_of_ne (Or.inr (by rw [List.Vector.toList_length]; omega))

theorem cbcRounds_mul {length : UInt32} (h : length % 16 = 0) :
    cbcRounds length * 16 = if length.toNat < 2147483648 then length.toNat else 0 := by
  have hmod : length.toNat % 16 = 0 := by
    rw [← UInt32.toNat_inj, UInt32.toNat_mod] at h
    exact h
  rw [cbcRounds]
  split <;> omega

/-! ## 4. Encrypting -/

/-- `sample_encrypt` stops at the length in the pack. -/
theorem sampleEncrypt_header (htypes : paramTypes = teeParamTypes 1 0xC 0xC 0) (hsize : plain.size % 16 = 0)
    (h : plain.size ≠ datasize m out.buffer ∨
      (readKey decrypt hash (d.files keyId) d.entries).result ≠ some teeSuccess) :
    (sampleEncrypt encrypt decrypt hash d m paramTypes keyId plain out).accesses =
      [.read (out.buffer + 16) 4] := by
  rw [sampleEncrypt, if_neg (not_not.mpr htypes), if_neg (not_not.mpr hsize)]
  dsimp only
  by_cases hlen : plain.size = datasize m out.buffer
  · rw [if_neg (not_not.mpr hlen), if_pos (h.resolve_left (not_not.mpr hlen))]
  · rw [if_pos hlen]

/-- `sample_encrypt` has no memory for what it encrypts. -/
theorem sampleEncrypt_heap (htypes : paramTypes = teeParamTypes 1 0xC 0xC 0) (hsize : plain.size % 16 = 0)
    (hlen : plain.size = datasize m out.buffer)
    (hkey : (readKey decrypt hash (d.files keyId) d.entries).result = some teeSuccess)
    (hheap : d.heap plain.size.toNat = none) :
    (sampleEncrypt encrypt decrypt hash d m paramTypes keyId plain out).accesses =
      [.read (out.buffer + 16) 4, .write out.buffer 16, .read out.buffer 16] := by
  rw [sampleEncrypt, if_neg (not_not.mpr htypes), if_neg (not_not.mpr hsize)]
  dsimp only
  rw [if_neg (not_not.mpr hlen), if_neg (not_not.mpr hkey), datasize_putRow, ← hlen, hheap]

/-- **`sample_encrypt` runs to its end.** -/
theorem sampleEncrypt_done {block : List UInt8} (htypes : paramTypes = teeParamTypes 1 0xC 0xC 0)
    (hsize : plain.size % 16 = 0) (hlen : plain.size = datasize m out.buffer)
    (hkey : (readKey decrypt hash (d.files keyId) d.entries).result = some teeSuccess)
    (hheap : d.heap plain.size.toNat = some block) :
    sampleEncrypt encrypt decrypt hash d m paramTypes keyId plain out =
      ⟨some teeSuccess, putRow (putRow m out.buffer d.entropy.toList) (out.buffer + 20)
        ((overlay block 0 (cbcEncrypt
          (encrypt (firstBlock 32 ((readKey decrypt hash (d.files keyId) d.entries).decryptedKey.getD [])))
          (cbcRounds plain.size) d.entropy
          (rowAt (putRow m out.buffer d.entropy.toList) plain.buffer (cbcRounds plain.size * 16))).1).take
            plain.size.toNat),
        [.read (out.buffer + 16) 4, .write out.buffer 16, .read out.buffer 16,
          .read plain.buffer (cbcRounds plain.size * 16), .write (out.buffer + 20) plain.size.toNat]⟩ := by
  rw [sampleEncrypt, if_neg (not_not.mpr htypes), if_neg (not_not.mpr hsize)]
  dsimp only
  rw [if_neg (not_not.mpr hlen), if_neg (not_not.mpr hkey), datasize_putRow, ← hlen, hheap,
    firstBlock_putBlock]

/-- **`sample_encrypt` stays inside** of the buffers, exactly if the pack does up to where it is used. -/
theorem sampleEncrypt_inside_iff :
    Inside (sampleEncrypt encrypt decrypt hash d m paramTypes keyId plain out).accesses out plain ↔
      paramTypes ≠ teeParamTypes 1 0xC 0xC 0 ∨ plain.size % 16 ≠ 0 ∨
      Covers out plain 0 (20 + plain.size.toNat) ∨
      (d.heap plain.size.toNat = none ∧ Covers out plain 0 20) ∨
      ((plain.size ≠ datasize m out.buffer ∨
        (readKey decrypt hash (d.files keyId) d.entries).result ≠ some teeSuccess) ∧
        Covers out plain 16 20) := by
  by_cases htypes : paramTypes = teeParamTypes 1 0xC 0xC 0
  swap
  · refine iff_of_true ?_ (Or.inl htypes)
    rw [sampleEncrypt, if_pos htypes]
    exact fun _ => False.elim
  by_cases hsize : plain.size % 16 = 0
  swap
  · refine iff_of_true ?_ (Or.inr (Or.inl hsize))
    rw [sampleEncrypt, if_neg (not_not.mpr htypes), if_pos hsize]
    exact fun _ => False.elim
  rw [or_iff_right (not_not.mpr htypes), or_iff_right (not_not.mpr hsize)]
  have hfull : Covers out plain 0 (20 + plain.size.toNat) → Covers out plain 0 20 :=
    fun h => h.mono (by omega) (by decide)
  have hpart : Covers out plain 0 20 → Covers out plain 16 20 := fun h => h.mono (by omega) (by decide)
  by_cases hhead : plain.size ≠ datasize m out.buffer ∨
      (readKey decrypt hash (d.files keyId) d.entries).result ≠ some teeSuccess
  · rw [sampleEncrypt_header htypes hsize hhead, inside_header]
    refine ⟨fun h => Or.inr (Or.inr ⟨hhead, h⟩), ?_⟩
    rintro (h | ⟨-, h⟩ | ⟨-, h⟩)
    · exact hpart (hfull h)
    · exact hpart h
    · exact h
  obtain ⟨hlen, hkey⟩ := not_or.mp hhead
  rw [not_not] at hlen hkey
  cases hheap : d.heap plain.size.toNat with
  | none =>
    have hinside : Inside [.read (out.buffer + 16) 4, .write out.buffer 16, .read out.buffer 16] out plain ↔
        Covers out plain 0 20 := by
      refine inside_iff (by decide) (fun x _ _ => ?_) (fun x h => ?_)
      · simp only [Touched]
        omega
      · simp only [Touched, or_false] at h
        exact Or.inl (by omega)
    rw [sampleEncrypt_heap htypes hsize hlen hkey hheap, hinside]
    refine ⟨fun h => Or.inr (Or.inl ⟨rfl, h⟩), ?_⟩
    rintro (h | ⟨-, h⟩ | ⟨hno, -⟩)
    · exact hfull h
    · exact h
    · exact absurd hno hhead
  | some block =>
    have hrounds := cbcRounds_mul hsize
    have hinside : Inside [.read (out.buffer + 16) 4, .write out.buffer 16, .read out.buffer 16,
        .read plain.buffer (cbcRounds plain.size * 16), .write (out.buffer + 20) plain.size.toNat]
        out plain ↔ Covers out plain 0 (20 + plain.size.toNat) := by
      refine inside_iff (by omega) (fun x _ _ => ?_) (fun x h => ?_)
      · simp only [Touched]
        omega
      · simp only [Touched, or_false] at h
        simp only [Memref.Contains]
        split at hrounds <;> omega
    rw [sampleEncrypt_done htypes hsize hlen hkey hheap, hinside]
    refine ⟨Or.inl, ?_⟩
    rintro (h | ⟨hno, -⟩ | ⟨hno, -⟩)
    · exact h
    · exact absurd hno (by simp)
    · exact absurd hno hhead

/-! ## 5. Decrypting -/

/-- Decrypting reads the row and writes one as long. -/
theorem touched_cbcDecryptAt : ∀ {n : Nat} {iv : Bytes 16} {input output : Nat} {m : Mem},
    Touched x (cbcDecryptAt cipher n iv input output m).2 ↔
      (input ≤ x ∧ x < input + n * 16) ∨ (output ≤ x ∧ x < output + n * 16)
  | 0, _, input, output, _ => by
    simp only [cbcDecryptAt, Touched, false_iff]
    omega
  | n + 1, iv, input, output, m => by
    simp only [cbcDecryptAt, Touched, touched_cbcDecryptAt (n := n)]
    omega

/-- What is not in the output stays as it is. -/
theorem cbcDecryptAt_of_ne : ∀ {n : Nat} {iv : Bytes 16} {input output : Nat} {m : Mem},
    x < output ∨ output + n * 16 ≤ x → (cbcDecryptAt cipher n iv input output m).1 x = m x
  | 0, _, _, _, _, _ => rfl
  | n + 1, iv, input, output, m, h => by
    rw [cbcDecryptAt, cbcDecryptAt_of_ne (by omega), putRow_of_ne, putRow_of_ne] <;>
      (rw [List.Vector.toList_length]; omega)

/-- **Decrypting in memory**: the output is what is decrypted, unless it begins inside the input and behind
its beginning. -/
theorem rowAt_cbcDecryptAt (cipher : Bytes 16 → Bytes 16) : ∀ {n : Nat} (iv : Bytes 16)
    {input output : Nat} (m : Mem), output ≤ input ∨ input + n * 16 ≤ output →
      rowAt (cbcDecryptAt cipher n iv input output m).1 output (n * 16) =
        (cbcDecrypt cipher n iv (rowAt m input (n * 16))).1
  | 0, _, _, _, _, _ => by simp [cbcDecrypt, rowAt]
  | n + 1, iv, input, output, m, h => by
    have hmul : (n + 1) * 16 = 16 + n * 16 := by ring
    rw [hmul] at h ⊢
    rw [cbcDecryptAt]
    dsimp only
    rw [firstBlock_putBlock]
    generalize htemp : firstBlock 16 (rowAt m input 16) = temp
    generalize hm2 : putRow (putRow m output (cipher temp).toList) output
      (xorBytes (cipher temp) iv).toList = m2
    -- the block that was written stays, and what is still to be read has not changed
    have hwritten : rowAt (cbcDecryptAt cipher n temp (input + 16) (output + 16) m2).1 output 16 =
        (xorBytes (cipher temp) iv).toList := by
      rw [rowAt_congr fun x _ hhigh => cbcDecryptAt_of_ne (Or.inl hhigh), ← hm2, rowAt_putBlock]
    have hunread : rowAt m2 (input + 16) (n * 16) = rowAt m (input + 16) (n * 16) := by
      rw [← hm2, rowAt_putRow_of_ne, rowAt_putRow_of_ne] <;> (rw [List.Vector.toList_length]; omega)
    have hdrop : (rowAt m input (16 + n * 16)).drop 16 = rowAt m (input + 16) (n * 16) := by
      rw [rowAt_add, List.drop_left' length_rowAt]
    have hfirst : firstBlock 16 (rowAt m input (16 + n * 16)) = temp := by
      refine List.Vector.toList_injective ?_
      rw [← htemp, firstBlock_toList (by simp), firstBlock_toList (by simp), rowAt_add,
        List.take_left' length_rowAt, List.take_of_length_le (by simp)]
    rw [rowAt_add, hwritten, rowAt_cbcDecryptAt cipher temp m2 (by omega), hunread, cbcDecrypt]
    dsimp only
    rw [hfirst, hdrop]

/-- `sample_decrypt` stops at the length in the pack. -/
theorem sampleDecrypt_header (htypes : paramTypes = teeParamTypes 1 0xC 0xC 0)
    (h : datasize m inp.buffer % 16 ≠ 0 ∨ out.size < datasize m inp.buffer ∨
      (readKey decrypt hash (d.files keyId) d.entries).result ≠ some teeSuccess) :
    (sampleDecrypt decrypt hash d m paramTypes keyId inp out).accesses = [.read (inp.buffer + 16) 4] := by
  rw [sampleDecrypt, if_neg (not_not.mpr htypes)]
  dsimp only
  by_cases h16 : datasize m inp.buffer % 16 = 0
  · rw [if_neg (not_not.mpr h16)]
    by_cases hsize : out.size < datasize m inp.buffer
    · rw [if_pos hsize]
    · rw [if_neg hsize, if_pos ((h.resolve_left (not_not.mpr h16)).resolve_left hsize)]
  · rw [if_pos h16]

/-- **`sample_decrypt` runs to its end.** -/
theorem sampleDecrypt_done (htypes : paramTypes = teeParamTypes 1 0xC 0xC 0)
    (h16 : datasize m inp.buffer % 16 = 0) (hsize : ¬ out.size < datasize m inp.buffer)
    (hkey : (readKey decrypt hash (d.files keyId) d.entries).result = some teeSuccess) :
    let r := cbcDecryptAt
      (decrypt (firstBlock 32 ((readKey decrypt hash (d.files keyId) d.entries).decryptedKey.getD [])))
      (cbcRounds (datasize m inp.buffer)) (firstBlock 16 (rowAt m inp.buffer 16)) (inp.buffer + 20)
      out.buffer m
    sampleDecrypt decrypt hash d m paramTypes keyId inp out =
      ⟨some teeSuccess, r.1, .read (inp.buffer + 16) 4 :: .read inp.buffer 16 :: r.2⟩ := by
  intro r
  rw [sampleDecrypt, if_neg (not_not.mpr htypes)]
  dsimp only
  rw [if_neg (not_not.mpr h16), if_neg hsize, if_neg (not_not.mpr hkey)]

/-- **`sample_decrypt` stays inside** of the buffers, exactly if the pack does up to where it is used. -/
theorem sampleDecrypt_inside_iff :
    Inside (sampleDecrypt decrypt hash d m paramTypes keyId inp out).accesses inp out ↔
      paramTypes ≠ teeParamTypes 1 0xC 0xC 0 ∨
      Covers inp out 0 (20 + (datasize m inp.buffer).toNat) ∨
      (2147483648 ≤ (datasize m inp.buffer).toNat ∧ Covers inp out 0 20) ∨
      ((datasize m inp.buffer % 16 ≠ 0 ∨ out.size < datasize m inp.buffer ∨
        (readKey decrypt hash (d.files keyId) d.entries).result ≠ some teeSuccess) ∧
        Covers inp out 16 20) := by
  by_cases htypes : paramTypes = teeParamTypes 1 0xC 0xC 0
  swap
  · refine iff_of_true ?_ (Or.inl htypes)
    rw [sampleDecrypt, if_pos htypes]
    exact fun _ => False.elim
  rw [or_iff_right (not_not.mpr htypes)]
  have hfull : Covers inp out 0 (20 + (datasize m inp.buffer).toNat) → Covers inp out 0 20 :=
    fun h => h.mono (by omega) (by decide)
  have hpart : Covers inp out 0 20 → Covers inp out 16 20 := fun h => h.mono (by omega) (by decide)
  by_cases hhead : datasize m inp.buffer % 16 ≠ 0 ∨ out.size < datasize m inp.buffer ∨
      (readKey decrypt hash (d.files keyId) d.entries).result ≠ some teeSuccess
  · rw [sampleDecrypt_header htypes hhead, inside_header]
    refine ⟨fun h => Or.inr (Or.inr ⟨hhead, h⟩), ?_⟩
    rintro (h | ⟨-, h⟩ | ⟨-, h⟩)
    · exact hpart (hfull h)
    · exact hpart h
    · exact h
  obtain ⟨h16, hrest⟩ := not_or.mp hhead
  obtain ⟨hsize, hkey⟩ := not_or.mp hrest
  rw [not_not] at h16 hkey
  have hrounds := cbcRounds_mul h16
  have hroom : (datasize m inp.buffer).toNat ≤ out.size.toNat := UInt32.not_lt.mp hsize
  -- the rounds that there are, in a pack that is as long as they need
  have hinside : ∀ k, cbcRounds (datasize m inp.buffer) * 16 = k →
      (Inside (sampleDecrypt decrypt hash d m paramTypes keyId inp out).accesses inp out ↔
        Covers inp out 0 (20 + k)) := by
    intro k hk
    rw [sampleDecrypt_done htypes h16 hsize hkey]
    refine inside_iff (by omega) (fun x _ _ => ?_) (fun x h => ?_)
    · simp only [Touched, touched_cbcDecryptAt]
      omega
    · simp only [Touched, touched_cbcDecryptAt] at h
      simp only [Memref.Contains]
      split at hrounds <;> omega
  by_cases hsmall : (datasize m inp.buffer).toNat < 2147483648
  · rw [hinside _ (hrounds.trans (if_pos hsmall))]
    refine ⟨Or.inl, ?_⟩
    rintro (h | ⟨hlarge, -⟩ | ⟨hno, -⟩)
    · exact h
    · exact absurd hsmall (Nat.not_lt.mpr hlarge)
    · exact absurd hno hhead
  · rw [hinside _ (hrounds.trans (if_neg hsmall))]
    refine ⟨fun h => Or.inr (Or.inl ⟨Nat.not_lt.mp hsmall, h⟩), ?_⟩
    rintro (h | ⟨-, h⟩ | ⟨hno, -⟩)
    · exact hfull h
    · exact h
    · exact absurd hno hhead

/-! ## 6. There and back -/

/-- The rows are apart. -/
def Apart (i n j k : Nat) : Prop := i + n ≤ j ∨ j + k ≤ i

/-- A word depends on its four bytes. -/
theorem word_eq_of_rowAt (h : rowAt m' j 4 = rowAt m i 4) : word m' j = word m i := by
  simp only [rowAt, List.cons.injEq] at h
  obtain ⟨h0, h1, h2, h3, -⟩ := h
  rw [word, word, load32, load32, h0, h1, h2, h3]

/-- The three parts of a pack that was copied. -/
theorem datasize_of_copied (h : rowAt m' j (20 + n) = rowAt m i (20 + n)) :
    rowAt m' j 16 = rowAt m i 16 ∧ datasize m' j = datasize m i ∧
      rowAt m' (j + 20) n = rowAt m (i + 20) n := by
  have hsplit : ∀ (m : Mem) (a : Nat), rowAt m a (20 + n) =
      rowAt m a 16 ++ (rowAt m (a + 16) 4 ++ rowAt m (a + 20) n) := by
    intro m a
    have hheader : 20 + n = 16 + (4 + n) := by omega
    rw [hheader, rowAt_add, rowAt_add]
  rw [hsplit, hsplit] at h
  obtain ⟨hiv, hrest⟩ := List.append_inj h (by simp)
  obtain ⟨hlen, hdata⟩ := List.append_inj hrest (by simp)
  exact ⟨hiv, word_eq_of_rowAt hlen, hdata⟩

/-- The key that `read_key` hands on has the hash that is in the file. -/
theorem readLoop_hash {store : KeyStore} : ∀ {es : List PinEntry} {tries : Nat} {iv : Bytes 16},
    readLoop decrypt hash store es tries iv = ⟨some teeSuccess, some key⟩ → keyHash hash key = store.hash
  | [], _, _, h => by
    rw [readLoop] at h
    exact absurd h (by simp)
  | e :: es, tries, iv, h => by
    rw [readLoop] at h
    split at h
    · rename_i hhash
      obtain rfl : _ = key := by simpa using h
      exact hhash
    split at h
    · exact absurd h (by simp)
    · exact readLoop_hash h

/-- **Two keys of one file** have one hash. -/
theorem readKey_hash {file : Option (List UInt8)} {es es' : List PinEntry}
    (h : readKey decrypt hash file es = ⟨some teeSuccess, some key⟩)
    (h' : readKey decrypt hash file es' = ⟨some teeSuccess, some key'⟩) :
    keyHash hash key = keyHash hash key' := by
  cases file with
  | none => exact absurd h (by simp [readKey])
  | some l =>
    rw [readKey] at h h'
    split at h
    · exact absurd h (by simp)
    · rename_i hlen
      rw [if_neg hlen] at h'
      rw [readLoop_hash h, readLoop_hash h']

/-- **The pack** that `sample_encrypt` writes. -/
theorem sampleEncrypt_pack (encrypt : Bytes 32 → Bytes 16 → Bytes 16) (hsize : plain.size % 16 = 0) (hsmall : plain.size.toNat < 2147483648)
    (hlen : plain.size = datasize m out.buffer) (hapart : Apart plain.buffer plain.size.toNat out.buffer 16)
    (hheap : d.heap plain.size.toNat ≠ none)
    (hkey : readKey decrypt hash (d.files keyId) d.entries = ⟨some teeSuccess, some key⟩) :
    let run := sampleEncrypt encrypt decrypt hash d m (teeParamTypes 1 0xC 0xC 0) keyId plain out
    run.result = some teeSuccess ∧ rowAt run.mem out.buffer 16 = d.entropy.toList ∧
      datasize run.mem out.buffer = plain.size ∧
      rowAt run.mem (out.buffer + 20) plain.size.toNat =
        (cbcEncrypt (encrypt (firstBlock 32 key)) (cbcRounds plain.size) d.entropy
          (rowAt m plain.buffer plain.size.toNat)).1 := by
  obtain ⟨block, hblock⟩ := Option.ne_none_iff_exists'.mp hheap
  have hrounds : cbcRounds plain.size * 16 = plain.size.toNat := (cbcRounds_mul hsize).trans (if_pos hsmall)
  have hplain : rowAt (putRow m out.buffer d.entropy.toList) plain.buffer plain.size.toNat =
      rowAt m plain.buffer plain.size.toNat := rowAt_putRow_of_ne (by simpa [Apart] using hapart)
  have hmaster : (readKey decrypt hash (d.files keyId) d.entries).decryptedKey.getD [] = key := by
    rw [hkey]
    rfl
  rw [sampleEncrypt_done rfl hsize hlen (congrArg ReadKeyRun.result hkey) hblock, hmaster, hrounds, hplain]
  have hcrypt := length_cbcEncrypt (encrypt (firstBlock 32 key)) (cbcRounds plain.size) d.entropy
    (rowAt m plain.buffer plain.size.toNat)
  rw [hrounds] at hcrypt
  generalize (cbcEncrypt (encrypt (firstBlock 32 key)) (cbcRounds plain.size) d.entropy
    (rowAt m plain.buffer plain.size.toNat)).1 = crypt at hcrypt
  have hdata : (overlay block 0 crypt).take plain.size.toNat = crypt := by
    rw [overlay, List.take_zero, List.nil_append]
    exact List.take_left' hcrypt
  rw [hdata]
  refine ⟨rfl, ?_, ?_, ?_⟩
  · exact (rowAt_putRow_of_ne (Or.inl (by omega))).trans (rowAt_putBlock d.entropy)
  · have hheader : datasize (putRow (putRow m out.buffer d.entropy.toList) (out.buffer + 20) crypt) out.buffer =
        datasize (putRow m out.buffer d.entropy.toList) out.buffer :=
      word_congr fun x _ _ => putRow_of_ne (Or.inl (by omega))
    exact hheader.trans ((datasize_putRow d.entropy).trans hlen.symm)
  · rw [← hcrypt]
    exact rowAt_putRow

/-- **What is decrypted** from a pack is what was encrypted. -/
theorem sampleDecrypt_pack {blob : Memref} {iv : Bytes 16} {l : List UInt8}
    (hcipher : ∀ key x, decrypt key (encrypt key x) = x) (hl : l.length = n) (h16 : n % 16 = 0)
    (hsmall : n < 2147483648) (hiv : rowAt m inp.buffer 16 = iv.toList)
    (hlen : (datasize m inp.buffer).toNat = n)
    (hdata : rowAt m (inp.buffer + 20) n = (cbcEncrypt (encrypt (firstBlock 32 key)) (n / 16) iv l).1)
    (hroom : n ≤ blob.size.toNat)
    (hapart : blob.buffer ≤ inp.buffer + 20 ∨ inp.buffer + 20 + n ≤ blob.buffer)
    (hkey : readKey decrypt hash (d.files keyId) d.entries = ⟨some teeSuccess, some key⟩) :
    let run := sampleDecrypt decrypt hash d m (teeParamTypes 1 0xC 0xC 0) keyId inp blob
    run.result = some teeSuccess ∧ rowAt run.mem blob.buffer n = l := by
  have hmod : datasize m inp.buffer % 16 = 0 := by
    rw [← UInt32.toNat_inj, UInt32.toNat_mod, hlen]
    exact h16
  have hsize : ¬ blob.size < datasize m inp.buffer := UInt32.not_lt.mpr (UInt32.le_iff_toNat_le.mpr (by omega))
  have hmaster : (readKey decrypt hash (d.files keyId) d.entries).decryptedKey.getD [] = key := by
    rw [hkey]
    rfl
  have hrounds : cbcRounds (datasize m inp.buffer) = n / 16 := by
    rw [cbcRounds, hlen, if_pos hsmall]
    omega
  have hmul : n / 16 * 16 = n := by omega
  have hvector : firstBlock 16 (rowAt m inp.buffer 16) = iv := by
    rw [hiv, ← List.append_nil iv.toList, firstBlock_append]
  have hinverse : (cbcDecrypt (decrypt (firstBlock 32 key)) (n / 16) iv
      ((cbcEncrypt (encrypt (firstBlock 32 key)) (n / 16) iv l).1 ++ [])).1 = l.take (n / 16 * 16) :=
    cbc_inverse (hcipher _) (by omega)
  rw [sampleDecrypt_done rfl hmod hsize (congrArg ReadKeyRun.result hkey), hmaster, hrounds, hvector]
  refine ⟨rfl, ?_⟩
  have hbehind : blob.buffer ≤ inp.buffer + 20 ∨ inp.buffer + 20 + n / 16 * 16 ≤ blob.buffer := by omega
  have hrow := rowAt_cbcDecryptAt (decrypt (firstBlock 32 key)) iv m hbehind
  rw [hmul] at hrow
  rw [List.append_nil, hmul, ← hdata, List.take_of_length_le (Nat.le_of_eq hl)] at hinverse
  exact hrow.trans hinverse

/-- **`sample_encrypt` and `sample_decrypt`.**  Each stays inside of the two buffers exactly if the pack
does up to where it is used: the header and as many bytes as the length in the pack says, or less where the
call is refused before.  And a pack is decrypted to what was encrypted, if the vector in it does not overlap with
the plain bytes and what is decrypted is not written over what is still to be read; the keys have one hash
in any case. -/
theorem sampleCrypt_right_iff (hcipher : ∀ key x, decrypt key (encrypt key x) = x) :
    (∀ d m paramTypes keyId plain out,
      Inside (sampleEncrypt encrypt decrypt hash d m paramTypes keyId plain out).accesses out plain ↔
        paramTypes ≠ teeParamTypes 1 0xC 0xC 0 ∨ plain.size % 16 ≠ 0 ∨
        Covers out plain 0 (20 + plain.size.toNat) ∨
        (d.heap plain.size.toNat = none ∧ Covers out plain 0 20) ∨
        ((plain.size ≠ datasize m out.buffer ∨
          (readKey decrypt hash (d.files keyId) d.entries).result ≠ some teeSuccess) ∧
          Covers out plain 16 20)) ∧
    (∀ d m paramTypes keyId inp out,
      Inside (sampleDecrypt decrypt hash d m paramTypes keyId inp out).accesses inp out ↔
        paramTypes ≠ teeParamTypes 1 0xC 0xC 0 ∨
        Covers inp out 0 (20 + (datasize m inp.buffer).toNat) ∨
        (2147483648 ≤ (datasize m inp.buffer).toNat ∧ Covers inp out 0 20) ∨
        ((datasize m inp.buffer % 16 ≠ 0 ∨ out.size < datasize m inp.buffer ∨
          (readKey decrypt hash (d.files keyId) d.entries).result ≠ some teeSuccess) ∧
          Covers inp out 16 20)) ∧
    ∀ d m keyId plain out key, plain.size % 16 = 0 → plain.size.toNat < 2147483648 →
      plain.size = datasize m out.buffer → Apart plain.buffer plain.size.toNat out.buffer 16 →
      d.heap plain.size.toNat ≠ none →
      readKey decrypt hash (d.files keyId) d.entries = ⟨some teeSuccess, some key⟩ →
      let run := sampleEncrypt encrypt decrypt hash d m (teeParamTypes 1 0xC 0xC 0) keyId plain out
      run.result = some teeSuccess ∧
      ∀ d' m' inp blob key', d'.files keyId = d.files keyId →
        rowAt m' inp.buffer (20 + plain.size.toNat) = rowAt run.mem out.buffer (20 + plain.size.toNat) →
        plain.size.toNat ≤ blob.size.toNat →
        (blob.buffer ≤ inp.buffer + 20 ∨ inp.buffer + 20 + plain.size.toNat ≤ blob.buffer) →
        readKey decrypt hash (d'.files keyId) d'.entries = ⟨some teeSuccess, some key'⟩ →
        keyHash hash key' = keyHash hash key ∧ (key' = key →
          let run' := sampleDecrypt decrypt hash d' m' (teeParamTypes 1 0xC 0xC 0) keyId inp blob
          run'.result = some teeSuccess ∧
            rowAt run'.mem blob.buffer plain.size.toNat = rowAt m plain.buffer plain.size.toNat) := by
  refine ⟨fun _ _ _ _ _ _ => sampleEncrypt_inside_iff, fun _ _ _ _ _ _ => sampleDecrypt_inside_iff, ?_⟩
  intro d m keyId plain out key hsize hsmall hlen hapart hheap hkey run
  obtain ⟨hresult, hvector, hfield, hdata⟩ :=
    sampleEncrypt_pack encrypt hsize hsmall hlen hapart hheap hkey
  refine ⟨hresult, ?_⟩
  intro d' m' inp blob key' hfiles hcopied hroom hapart' hkey'
  have hkey₀ := hkey'
  rw [hfiles] at hkey₀
  refine ⟨readKey_hash hkey₀ hkey, ?_⟩
  rintro rfl
  obtain ⟨hiv, hfield', hdata'⟩ := datasize_of_copied hcopied
  have h16 : plain.size.toNat % 16 = 0 := by
    rw [← UInt32.toNat_inj, UInt32.toNat_mod] at hsize
    exact hsize
  have hrounds : cbcRounds plain.size = plain.size.toNat / 16 := by
    rw [cbcRounds, if_pos hsmall]
    omega
  rw [hrounds] at hdata
  exact sampleDecrypt_pack hcipher length_rowAt h16 hsmall (hiv.trans hvector)
    (congrArg UInt32.toNat (hfield'.trans hfield)) (hdata'.trans hdata) hroom hapart' hkey'

/-! ## 7. A buffer that is too small -/

/-- A device with one key, that was made with the PIN `1`; the PIN is typed. -/
def plainDevice : Device where
  files keyId :=
    if keyId = 1 then
      (sampleNewKey plainCipher plainHash (teeParamTypes 1 0 0 0) true plainIv plainKey (oneCharacter 0x31)).2
    else none
  entries := [oneCharacter 0x31]
  entropy := plainIv
  heap n := some (List.replicate n 0)
  heap_length := by
    rintro n block h
    obtain rfl : List.replicate n 0 = block := by simpa using h
    exact List.length_replicate

theorem readKey_plainDevice : readKey plainCipher plainHash (plainDevice.files 1) plainDevice.entries =
    ⟨some teeSuccess, some plainKey.toList⟩ := by
  have hopens : SomeOpens plainCipher plainHash
      (newStore plainCipher plainHash plainIv plainKey (oneCharacter 0x31)) plainKey plainIv
      [oneCharacter 0x31] := Or.inl ((opens_right plainCipher_inverse rfl plainIv).mpr rfl)
  exact (readKey_eq_readLoop _).trans
    (readLoop_opens (hashOf_newStore plainHash_inj) hopens (by decide))

/-- Sixteen sevens at 0, and a pack for sixteen bytes at 100. -/
def plainMem : Mem := fun x => if x < 16 then 7 else if x = 116 then 16 else 0

/-- A pack of 36 bytes: both calls stay inside, and the sevens come back. -/
theorem sampleCrypt_right_small :
    let run := sampleEncrypt plainCipher plainCipher plainHash plainDevice plainMem
      (teeParamTypes 1 0xC 0xC 0) 1 ⟨0, 16, by decide⟩ ⟨100, 36, by decide⟩
    Inside run.accesses ⟨100, 36, by decide⟩ ⟨0, 16, by decide⟩ ∧
      rowAt (sampleDecrypt plainCipher plainHash plainDevice run.mem (teeParamTypes 1 0xC 0xC 0) 1
        ⟨100, 36, by decide⟩ ⟨200, 16, by decide⟩).mem 200 16 = List.replicate 16 7 := by
  have h := @sampleCrypt_right_iff plainCipher plainCipher plainHash plainCipher_inverse
  refine ⟨(h.1 _ _ _ _ _ _).mpr (Or.inr (Or.inr (Or.inl (by decide)))), ?_⟩
  have hback := (h.2.2 plainDevice plainMem 1 ⟨0, 16, by decide⟩ ⟨100, 36, by decide⟩ plainKey.toList
    (by decide) (by decide) (by decide) (by unfold Apart; decide) (by simp [plainDevice])
    readKey_plainDevice).2
  exact ((hback plainDevice _ ⟨100, 36, by decide⟩ ⟨200, 16, by decide⟩ plainKey.toList rfl rfl (by decide)
    (by decide) readKey_plainDevice).2 rfl).2

/-- **A pack of 20 bytes** that says sixteen: what is encrypted is written behind it, and what is read from
behind it is decrypted. -/
theorem sampleCrypt_outside :
    ¬ (Inside (sampleEncrypt plainCipher plainCipher plainHash plainDevice plainMem
        (teeParamTypes 1 0xC 0xC 0) 1 ⟨0, 16, by decide⟩ ⟨100, 20, by decide⟩).accesses
        ⟨100, 20, by decide⟩ ⟨0, 16, by decide⟩ ∨
      Inside (sampleDecrypt plainCipher plainHash plainDevice plainMem
        (teeParamTypes 1 0xC 0xC 0) 1 ⟨100, 20, by decide⟩ ⟨0, 16, by decide⟩).accesses
        ⟨100, 20, by decide⟩ ⟨0, 16, by decide⟩) := by
  rw [sampleEncrypt_inside_iff, sampleDecrypt_inside_iff, readKey_plainDevice]
  decide

end AndixOs.Trustlet
