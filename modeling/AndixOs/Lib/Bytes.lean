/-
# Byte strings and little-endian words

The kernel moves its data as byte arrays: a 32-bit word goes into a hash, a file block or a
header as four bytes, lowest first.  This file has the two facts every user of that layout
needs: the four bytes determine the word (`le32_injective`), and reading them back gives it
(`ofLe32_le32`), plus the overlay of one byte string on another that `memcpy` performs.

Nothing here names the kernel.
-/
import Mathlib.Data.Vector.Basic
import Mathlib.Data.Vector.Zip

namespace AndixOs

/-- `n` bytes. -/
abbrev Bytes (n : Nat) := List.Vector UInt8 n

/-! ## 1. Little-endian words -/

/-- The four bytes of a word, lowest first. -/
def le32 (w : UInt32) : List UInt8 :=
  [w.toUInt8, (w >>> 8).toUInt8, (w >>> 16).toUInt8, (w >>> 24).toUInt8]

/-- The word whose four bytes, lowest first, are the head of the list. -/
def ofLe32 : List UInt8 → UInt32
  | a :: b :: c :: d :: _ =>
    UInt32.ofNat (a.toNat + 256 * b.toNat + 65536 * c.toNat + 16777216 * d.toNat)
  | _ => 0

@[simp] theorem le32_length (w : UInt32) : (le32 w).length = 4 := rfl

theorem toNat_shiftRight_toUInt8 (w : UInt32) :
    w.toUInt8.toNat = w.toNat % 256 ∧ (w >>> 8).toUInt8.toNat = w.toNat / 256 % 256 ∧
      (w >>> 16).toUInt8.toNat = w.toNat / 65536 % 256 ∧
      (w >>> 24).toUInt8.toNat = w.toNat / 16777216 % 256 := by
  simp [Nat.shiftRight_eq_div_pow]

/-- Reading the four bytes of a word back gives the word. -/
theorem ofLe32_le32 (w : UInt32) (rest : List UInt8) : ofLe32 (le32 w ++ rest) = w := by
  obtain ⟨h0, h1, h2, h3⟩ := toNat_shiftRight_toUInt8 w
  have hw : w.toNat < 4294967296 := w.toNat_lt
  have hsum : w.toUInt8.toNat + 256 * (w >>> 8).toUInt8.toNat
      + 65536 * (w >>> 16).toUInt8.toNat + 16777216 * (w >>> 24).toUInt8.toNat = w.toNat := by
    omega
  simp only [le32, List.cons_append, List.nil_append, ofLe32, hsum, UInt32.ofNat_toNat]

/-- The four bytes determine the word. -/
theorem le32_injective : Function.Injective le32 := by
  intro v w h
  rw [← ofLe32_le32 v [], ← ofLe32_le32 w [], h]

/-- The two bytes of a half word, lowest first. -/
def le16 (w : UInt16) : List UInt8 := [w.toUInt8, (w >>> 8).toUInt8]

@[simp] theorem le16_length (w : UInt16) : (le16 w).length = 2 := rfl

theorem toNat_halfWord_toUInt8 (w : UInt16) :
    w.toUInt8.toNat = w.toNat % 256 ∧ (w >>> 8).toUInt8.toNat = w.toNat / 256 % 256 := by
  simp [Nat.shiftRight_eq_div_pow]

/-- The two bytes determine the half word. -/
theorem le16_injective : Function.Injective le16 := by
  intro v w h
  obtain ⟨h0, h1⟩ : v.toUInt8 = w.toUInt8 ∧ (v >>> 8).toUInt8 = (w >>> 8).toUInt8 := by
    simpa [le16] using h
  have hv := toNat_halfWord_toUInt8 v
  have hw := toNat_halfWord_toUInt8 w
  rw [h0, h1] at hv
  have hlt := v.toNat_lt
  have hlt' := w.toNat_lt
  exact UInt16.toNat_inj.mp (by omega)

theorem eq_ofNat_of_toNat {b : UInt8} {k : Nat} (h : b.toNat = k % 256) : b = UInt8.ofNat k := by
  rw [← UInt8.toNat_inj, h, UInt8.toNat_ofNat']

/-- The bytes of a word that is given as a number. -/
theorem le32_ofNat {v : Nat} (hv : v < 4294967296) : le32 (UInt32.ofNat v) =
    [UInt8.ofNat v, UInt8.ofNat (v / 256), UInt8.ofNat (v / 65536), UInt8.ofNat (v / 16777216)] := by
  obtain ⟨h0, h1, h2, h3⟩ := toNat_shiftRight_toUInt8 (UInt32.ofNat v)
  rw [UInt32.toNat_ofNat_of_lt' hv] at h0 h1 h2 h3
  rw [le32, eq_ofNat_of_toNat h0, eq_ofNat_of_toNat h1, eq_ofNat_of_toNat h2, eq_ofNat_of_toNat h3]

theorem le16_ofNat {v : Nat} (hv : v < 65536) :
    le16 (UInt16.ofNat v) = [UInt8.ofNat v, UInt8.ofNat (v / 256)] := by
  obtain ⟨h0, h1⟩ := toNat_halfWord_toUInt8 (UInt16.ofNat v)
  rw [UInt16.toNat_ofNat_of_lt' hv] at h0 h1
  rw [le16, eq_ofNat_of_toNat h0, eq_ofNat_of_toNat h1]

/-! ## 2. Copying bytes into a byte string -/

/-- `l` with the bytes `b` copied over it from position `p`. -/
def overlay (l : List UInt8) (p : Nat) (b : List UInt8) : List UInt8 :=
  l.take p ++ b ++ l.drop (p + b.length)

/-- A copy that fits keeps the length. -/
theorem overlay_length {l b : List UInt8} {p : Nat} (h : p + b.length ≤ l.length) :
    (overlay l p b).length = l.length := by
  simp only [overlay, List.length_append, List.length_take, List.length_drop]
  omega

/-- `memcpy` of `b` to offset `p` of a byte array.  A copy that does not fit is left out: the
callers bound `p + b.length` first. -/
def Bytes.write {n : Nat} (d : Bytes n) (p : Nat) (b : List UInt8) : Bytes n :=
  if h : p + b.length ≤ n then
    ⟨overlay d.toList p b, by rw [overlay_length (by simpa using h), List.Vector.toList_length]⟩
  else d

/-- The `k` bytes at offset `p` of a byte array. -/
def Bytes.slice {n : Nat} (d : Bytes n) (p k : Nat) : List UInt8 := (d.toList.drop p).take k

/-- An array of zero bytes. -/
def Bytes.zero (n : Nat) : Bytes n := List.Vector.replicate n 0

/-! ## 3. Reading what was written -/

variable {n : Nat} {d : Bytes n} {p q k : Nat} {b : List UInt8}

theorem overlay_getElem? {l : List UInt8} (hp : p ≤ l.length) (i : Nat) :
    (overlay l p b)[i]? =
      if p ≤ i ∧ i < p + b.length then b[i - p]? else l[i]? := by
  unfold overlay
  rw [List.append_assoc, List.getElem?_append, List.length_take, Nat.min_eq_left hp]
  split
  · rename_i hi
    rw [if_neg (by omega), List.getElem?_take_of_lt hi]
  · rename_i hi
    rw [List.getElem?_append]
    split
    · rw [if_pos (by omega)]
    · rw [if_neg (by omega), List.getElem?_drop]
      congr 1
      omega

theorem Bytes.slice_getElem? (i : Nat) :
    (d.slice p k)[i]? = if i < k then d.toList[p + i]? else none := by
  unfold Bytes.slice
  rw [List.getElem?_take]
  split
  · rw [List.getElem?_drop]
  · rfl

theorem Bytes.write_getElem? (h : p + b.length ≤ n) (i : Nat) :
    (d.write p b).toList[i]? =
      if p ≤ i ∧ i < p + b.length then b[i - p]? else d.toList[i]? := by
  have hwrite : (d.write p b).toList = overlay d.toList p b :=
    congrArg List.Vector.toList (dif_pos h)
  rw [hwrite]
  exact overlay_getElem? (by rw [List.Vector.toList_length]; omega) i

/-- A slice that ends with a write. -/
theorem Bytes.slice_write_append (h : p + k + b.length ≤ n) :
    (d.write (p + k) b).slice p (k + b.length) = d.slice p k ++ b := by
  refine List.ext_getElem? fun i => ?_
  have hlen : (d.slice p k).length = k := by
    unfold Bytes.slice
    rw [List.length_take, List.length_drop, List.Vector.toList_length]
    omega
  rw [Bytes.slice_getElem?, Bytes.write_getElem? h, List.getElem?_append, hlen]
  by_cases h1 : i < k
  · rw [if_pos (by omega), if_neg (by omega), if_pos h1, Bytes.slice_getElem?, if_pos h1]
  · rw [if_neg h1]
    by_cases h2 : i < k + b.length
    · rw [if_pos h2, if_pos (by omega)]
      congr 1
      omega
    · rw [if_neg h2, List.getElem?_eq_none (by omega)]

/-- What was written. -/
theorem Bytes.slice_write_self (h : p + b.length ≤ n) : (d.write p b).slice p b.length = b := by
  have happend := Bytes.slice_write_append (d := d) (k := 0) h
  rw [Nat.zero_add] at happend
  exact happend

/-- What lies elsewhere. -/
theorem Bytes.slice_write_other (h : q + k ≤ p ∨ p + b.length ≤ q) :
    (d.write p b).slice q k = d.slice q k := by
  by_cases hfit : p + b.length ≤ n
  · refine List.ext_getElem? fun i => ?_
    rw [Bytes.slice_getElem?, Bytes.slice_getElem?, Bytes.write_getElem? hfit]
    split
    · rw [if_neg (by omega)]
    · rfl
  · have hwrite : d.write p b = d := dif_neg hfit
    rw [hwrite]

/-- A part of a slice. -/
theorem Bytes.slice_drop_take (d : Bytes n) (p k i : Nat) :
    d.slice (p + i) (k - i) = (d.slice p k).drop i := by
  refine List.ext_getElem? fun j => ?_
  rw [List.getElem?_drop, Bytes.slice_getElem?, Bytes.slice_getElem?, Nat.add_assoc]
  by_cases hj : j < k - i
  · rw [if_pos hj, if_pos (by omega)]
  · rw [if_neg hj, if_neg (by omega)]

/-! ## 4. Xor -/

/-- Two byte strings, byte by byte. -/
def xorBytes (a b : Bytes n) : Bytes n := List.Vector.zipWith (· ^^^ ·) a b

theorem xorBytes_zero (a : Bytes n) : xorBytes a (Bytes.zero n) = a := by
  ext i
  simp [xorBytes, Bytes.zero]

/-- What is xored twice is as before. -/
theorem xorBytes_cancel (a b : Bytes n) : xorBytes (xorBytes a b) b = a := by
  ext i
  rw [xorBytes, xorBytes, List.Vector.zipWith_get, List.Vector.zipWith_get, UInt8.xor_assoc,
    UInt8.xor_self, UInt8.xor_zero]

/-- Xor of different byte strings is different. -/
theorem xorBytes_right_inj {a b b' : Bytes n} : xorBytes a b = xorBytes a b' ↔ b = b' := by
  refine ⟨fun h => ?_, fun h => h ▸ rfl⟩
  refine List.Vector.ext fun i => ?_
  have hi := congrArg (List.Vector.get · i) h
  simpa [xorBytes] using hi

end AndixOs
