/-
# Rijndael

The block cipher on blocks of 16 bytes, as a square of four columns, for keys of any number of columns
(`nk`), any number of rounds and any substitution that has an inverse.  A round substitutes every byte, turns
the rows, mixes the columns and adds a key; the last one does not mix.  The keys of the rounds are the
columns of `keyExpansion`.

* `gmul_xor`: multiplying by a byte is additive, and with it all of `mixColumns`;
* `Column.unmix_mix`, `Grid.unscramble_scramble`: every part of a round has an inverse;
* `invCipher_cipher`, `cipher_invCipher`: what is enciphered is deciphered and the other way round, for
  every schedule and every number of rounds.

Nothing here names the kernel.
-/
import Mathlib.Data.Vector.Basic

namespace AndixOs.Rijndael

/-! ## 1. Bytes as polynomials -/

/-- A byte times `x`. -/
def xtime (b : UInt8) : UInt8 := (b <<< 1) ^^^ (if b &&& 0x80 = 0 then 0 else 0x1B)

/-- The sum of `x ^ i * b` over the lowest bits of `a` that are set. -/
def gmulBits : Nat → Nat → UInt8 → UInt8
  | 0, _, _ => 0
  | n + 1, a, b => (if a % 2 = 0 then 0 else b) ^^^ gmulBits n (a / 2) (xtime b)

/-- The product of two bytes. -/
def gmul (a b : UInt8) : UInt8 := gmulBits 8 a.toNat b

/-- `i` is the inverse of `b`; that of 0 is 0. -/
def IsInverse (b i : UInt8) : Prop := (b = 0 → i = 0) ∧ (b ≠ 0 → gmul b i = 1)

instance (b i : UInt8) : Decidable (IsInverse b i) := inferInstanceAs (Decidable (_ ∧ _))

/-- A byte turned to the left. -/
def turn (b : UInt8) (k : UInt8) : UInt8 := b <<< k ||| b >>> (8 - k)

/-- The affine map of the bits of a byte. -/
def affine (b : UInt8) : UInt8 := b ^^^ turn b 1 ^^^ turn b 2 ^^^ turn b 3 ^^^ turn b 4 ^^^ 0x63

/-- A substitution of bytes, and the way back. -/
structure SBox where
  sub : UInt8 → UInt8
  inv : UInt8 → UInt8
  inv_sub : ∀ b, inv (sub b) = b
  sub_inv : ∀ b, sub (inv b) = b

/-- What is true of the numbers below 256 is true of every byte. -/
theorem forall_byte {p : UInt8 → Prop} (h : ∀ i : Fin 256, p (UInt8.ofNat i)) (b : UInt8) : p b := by
  have hb := h ⟨b.toNat, b.toNat_lt⟩
  rwa [UInt8.ofNat_toNat] at hb

/-- `xtime` without a choice: the highest bit goes to the places of `0x1B`. -/
theorem xtime_eq : ∀ b, xtime b =
    b <<< 1 ^^^ (b >>> 7 ^^^ b >>> 7 <<< 1 ^^^ b >>> 7 <<< 3 ^^^ b >>> 7 <<< 4) :=
  forall_byte (by decide +kernel)

theorem xtime_xor (a b : UInt8) : xtime (a ^^^ b) = xtime a ^^^ xtime b := by
  simp only [xtime_eq, UInt8.shiftLeft_xor, UInt8.shiftRight_xor]
  ac_rfl

theorem gmulBits_xor : ∀ (n a : Nat) (b c : UInt8),
    gmulBits n a (b ^^^ c) = gmulBits n a b ^^^ gmulBits n a c
  | 0, _, _, _ => by simp [gmulBits]
  | n + 1, a, b, c => by
    rw [gmulBits, gmulBits, gmulBits, xtime_xor, gmulBits_xor n]
    split
    · simp
    · ac_rfl

/-- **Multiplying is additive.** -/
theorem gmul_xor (a b c : UInt8) : gmul a (b ^^^ c) = gmul a b ^^^ gmul a c :=
  gmulBits_xor 8 a.toNat b c

theorem xor_left_comm (a b c : UInt8) : a ^^^ (b ^^^ c) = b ^^^ (a ^^^ c) := by
  ac_rfl

theorem xor_xor_self (a b : UInt8) : a ^^^ (a ^^^ b) = b := by
  rw [← UInt8.xor_assoc, UInt8.xor_self, UInt8.zero_xor]

theorem xtime_zero : xtime 0 = 0 := rfl

theorem gmulBits_zero : ∀ n a, gmulBits n a 0 = 0
  | 0, _ => rfl
  | n + 1, a => by simp [gmulBits, xtime_zero, gmulBits_zero n]

theorem gmul_zero (a : UInt8) : gmul a 0 = 0 := gmulBits_zero 8 a.toNat

/-- The multiples that mixing takes. -/
theorem gmul_small (b : UInt8) : gmul 1 b = b ∧ gmul 2 b = xtime b ∧ gmul 3 b = b ^^^ xtime b := by
  simp [gmul, gmulBits]

/-- The multiples that mixing back takes. -/
theorem gmul_large (b : UInt8) :
    gmul 0x09 b = b ^^^ xtime (xtime (xtime b)) ∧
      gmul 0x0B b = b ^^^ (xtime b ^^^ xtime (xtime (xtime b))) ∧
      gmul 0x0D b = b ^^^ (xtime (xtime b) ^^^ xtime (xtime (xtime b))) ∧
      gmul 0x0E b = xtime b ^^^ (xtime (xtime b) ^^^ xtime (xtime (xtime b))) := by
  simp [gmul, gmulBits]

/-! ## 2. Columns -/

/-- Four bytes, from the top. -/
@[ext]
structure Column where
  b0 : UInt8
  b1 : UInt8
  b2 : UInt8
  b3 : UInt8
  deriving DecidableEq

namespace Column

instance : XorOp Column := ⟨fun c d => ⟨c.b0 ^^^ d.b0, c.b1 ^^^ d.b1, c.b2 ^^^ d.b2, c.b3 ^^^ d.b3⟩⟩

@[simp] theorem xor_b0 (c d : Column) : (c ^^^ d).b0 = c.b0 ^^^ d.b0 := rfl
@[simp] theorem xor_b1 (c d : Column) : (c ^^^ d).b1 = c.b1 ^^^ d.b1 := rfl
@[simp] theorem xor_b2 (c d : Column) : (c ^^^ d).b2 = c.b2 ^^^ d.b2 := rfl
@[simp] theorem xor_b3 (c d : Column) : (c ^^^ d).b3 = c.b3 ^^^ d.b3 := rfl

theorem xor_comm (c d : Column) : c ^^^ d = d ^^^ c := by
  ext <;> simp [UInt8.xor_comm]

theorem xor_assoc (c d e : Column) : c ^^^ d ^^^ e = c ^^^ (d ^^^ e) := by
  ext <;> simp [UInt8.xor_assoc]

instance : Std.Commutative (α := Column) (· ^^^ ·) := ⟨xor_comm⟩
instance : Std.Associative (α := Column) (· ^^^ ·) := ⟨xor_assoc⟩

theorem xor_cancel (c d : Column) : c ^^^ d ^^^ d = c := by
  ext <;> simp only [xor_b0, xor_b1, xor_b2, xor_b3, UInt8.xor_assoc, UInt8.xor_self, UInt8.xor_zero]

/-- Every byte replaced. -/
def map (f : UInt8 → UInt8) (c : Column) : Column := ⟨f c.b0, f c.b1, f c.b2, f c.b3⟩

/-- The first byte goes to the end. -/
def rot (c : Column) : Column := ⟨c.b1, c.b2, c.b3, c.b0⟩

/-- A column times the polynomial whose first column is `p`. -/
def times (p c : Column) : Column where
  b0 := gmul p.b0 c.b0 ^^^ gmul p.b3 c.b1 ^^^ gmul p.b2 c.b2 ^^^ gmul p.b1 c.b3
  b1 := gmul p.b1 c.b0 ^^^ gmul p.b0 c.b1 ^^^ gmul p.b3 c.b2 ^^^ gmul p.b2 c.b3
  b2 := gmul p.b2 c.b0 ^^^ gmul p.b1 c.b1 ^^^ gmul p.b0 c.b2 ^^^ gmul p.b3 c.b3
  b3 := gmul p.b3 c.b0 ^^^ gmul p.b2 c.b1 ^^^ gmul p.b1 c.b2 ^^^ gmul p.b0 c.b3

/-- The column mixed. -/
def mix (c : Column) : Column := times ⟨2, 1, 1, 3⟩ c

/-- The column mixed back. -/
def unmix (c : Column) : Column := times ⟨0x0E, 0x09, 0x0D, 0x0B⟩ c

theorem times_xor (p c d : Column) : times p (c ^^^ d) = times p c ^^^ times p d := by
  ext <;> simp only [times, gmul_xor, xor_b0, xor_b1, xor_b2, xor_b3] <;> ac_rfl

theorem times_rot (p c : Column) : times p c.rot = (times p c).rot := by
  ext <;> simp only [times, rot] <;> ac_rfl

/-- A column is the sum of its bytes, each at its place. -/
theorem eq_sum (c : Column) : c = (⟨c.b0, 0, 0, 0⟩ ^^^ ⟨0, c.b1, 0, 0⟩) ^^^ (⟨0, 0, c.b2, 0⟩ ^^^ ⟨0, 0, 0, c.b3⟩) := by
  ext <;> simp

/-- What is so of columns with the first byte only is so of all, for maps that are additive and turn with the
column. -/
theorem eq_of_single {f : Column → Column} (hxor : ∀ c d, f (c ^^^ d) = f c ^^^ f d)
    (hrot : ∀ c, f c.rot = (f c).rot) (h : ∀ x, f ⟨x, 0, 0, 0⟩ = ⟨x, 0, 0, 0⟩) (c : Column) : f c = c := by
  have h3 (x : UInt8) : f ⟨0, 0, 0, x⟩ = ⟨0, 0, 0, x⟩ := by
    have := hrot ⟨x, 0, 0, 0⟩
    rwa [h] at this
  have h2 (x : UInt8) : f ⟨0, 0, x, 0⟩ = ⟨0, 0, x, 0⟩ := by
    have := hrot ⟨0, 0, 0, x⟩
    rwa [h3] at this
  have h1 (x : UInt8) : f ⟨0, x, 0, 0⟩ = ⟨0, x, 0, 0⟩ := by
    have := hrot ⟨0, 0, x, 0⟩
    rwa [h2] at this
  rw [eq_sum c, hxor, hxor, hxor, h, h1, h2, h3]

theorem mix_single (x : UInt8) : mix ⟨x, 0, 0, 0⟩ = ⟨xtime x, x, x, x ^^^ xtime x⟩ := by
  obtain ⟨h1, h2, h3⟩ := gmul_small x
  ext <;> simp [mix, times, gmul_zero, h1, h2, h3]

theorem unmix_single (x : UInt8) : unmix ⟨x, 0, 0, 0⟩ =
    ⟨xtime x ^^^ (xtime (xtime x) ^^^ xtime (xtime (xtime x))), x ^^^ xtime (xtime (xtime x)),
      x ^^^ (xtime (xtime x) ^^^ xtime (xtime (xtime x))), x ^^^ (xtime x ^^^ xtime (xtime (xtime x)))⟩ := by
  obtain ⟨h9, hb, hd, he⟩ := gmul_large x
  ext <;> simp [unmix, times, gmul_zero, h9, hb, hd, he]

/-- **Mixing has an inverse**: the products of the coefficients cancel, whatever `xtime` is. -/
theorem unmix_mix (c : Column) : unmix (mix c) = c := by
  refine eq_of_single (f := fun c => unmix (mix c)) ?_ ?_ ?_ c
  · intro c d
    simp only [mix, unmix, times_xor]
  · intro c
    simp only [mix, unmix, times_rot]
  · intro x
    simp only [mix_single]
    ext <;> simp only [unmix, times, gmul_large, xtime_xor, UInt8.xor_assoc, UInt8.xor_comm, xor_left_comm,
      xor_xor_self, UInt8.xor_self, UInt8.xor_zero]

theorem mix_unmix (c : Column) : mix (unmix c) = c := by
  refine eq_of_single (f := fun c => mix (unmix c)) ?_ ?_ ?_ c
  · intro c d
    simp only [mix, unmix, times_xor]
  · intro c
    simp only [mix, unmix, times_rot]
  · intro x
    simp only [unmix_single]
    ext <;> simp only [mix, times, gmul_small, xtime_xor, UInt8.xor_assoc, UInt8.xor_comm, xor_left_comm,
      xor_xor_self, UInt8.xor_self, UInt8.xor_zero]

end Column

/-! ## 3. Blocks and their rounds -/

/-- Four columns, from the left. -/
@[ext]
structure Grid where
  c0 : Column
  c1 : Column
  c2 : Column
  c3 : Column
  deriving DecidableEq

namespace Grid

variable {S : SBox}

instance : XorOp Grid := ⟨fun s t => ⟨s.c0 ^^^ t.c0, s.c1 ^^^ t.c1, s.c2 ^^^ t.c2, s.c3 ^^^ t.c3⟩⟩

@[simp] theorem xor_c0 (s t : Grid) : (s ^^^ t).c0 = s.c0 ^^^ t.c0 := rfl
@[simp] theorem xor_c1 (s t : Grid) : (s ^^^ t).c1 = s.c1 ^^^ t.c1 := rfl
@[simp] theorem xor_c2 (s t : Grid) : (s ^^^ t).c2 = s.c2 ^^^ t.c2 := rfl
@[simp] theorem xor_c3 (s t : Grid) : (s ^^^ t).c3 = s.c3 ^^^ t.c3 := rfl

theorem xor_cancel (s t : Grid) : s ^^^ t ^^^ t = s := by
  ext1 <;> exact Column.xor_cancel _ _

/-- Every column replaced. -/
def map (f : Column → Column) (s : Grid) : Grid := ⟨f s.c0, f s.c1, f s.c2, f s.c3⟩

/-- `SubBytes`. -/
def subBytes (S : SBox) (s : Grid) : Grid := s.map (Column.map S.sub)

/-- `InvSubBytes`. -/
def invSubBytes (S : SBox) (s : Grid) : Grid := s.map (Column.map S.inv)

/-- `ShiftRows`: row `r` is turned to the left by `r` places. -/
def shiftRows (s : Grid) : Grid where
  c0 := ⟨s.c0.b0, s.c1.b1, s.c2.b2, s.c3.b3⟩
  c1 := ⟨s.c1.b0, s.c2.b1, s.c3.b2, s.c0.b3⟩
  c2 := ⟨s.c2.b0, s.c3.b1, s.c0.b2, s.c1.b3⟩
  c3 := ⟨s.c3.b0, s.c0.b1, s.c1.b2, s.c2.b3⟩

/-- `InvShiftRows`: row `r` is turned to the right by `r` places. -/
def invShiftRows (s : Grid) : Grid where
  c0 := ⟨s.c0.b0, s.c3.b1, s.c2.b2, s.c1.b3⟩
  c1 := ⟨s.c1.b0, s.c0.b1, s.c3.b2, s.c2.b3⟩
  c2 := ⟨s.c2.b0, s.c1.b1, s.c0.b2, s.c3.b3⟩
  c3 := ⟨s.c3.b0, s.c2.b1, s.c1.b2, s.c0.b3⟩

/-- `MixColumns`. -/
def mixColumns (s : Grid) : Grid := s.map Column.mix

/-- `InvMixColumns`. -/
def invMixColumns (s : Grid) : Grid := s.map Column.unmix

/-- What a round does before the columns are mixed. -/
def scramble (S : SBox) (s : Grid) : Grid := (s.subBytes S).shiftRows

def unscramble (S : SBox) (s : Grid) : Grid := s.invShiftRows.invSubBytes S

theorem invMixColumns_mixColumns (s : Grid) : s.mixColumns.invMixColumns = s := by
  ext1 <;> exact Column.unmix_mix _

theorem mixColumns_invMixColumns (s : Grid) : s.invMixColumns.mixColumns = s := by
  ext1 <;> exact Column.mix_unmix _

theorem invMixColumns_xor (s t : Grid) : (s ^^^ t).invMixColumns = s.invMixColumns ^^^ t.invMixColumns := by
  ext1 <;> exact Column.times_xor _ _ _

/-- **Substituting and turning the rows** has an inverse. -/
theorem unscramble_scramble (s : Grid) : (s.scramble S).unscramble S = s := by
  simp only [scramble, unscramble, subBytes, invSubBytes, shiftRows, invShiftRows, map, Column.map, S.inv_sub]

theorem scramble_unscramble (s : Grid) : (s.unscramble S).scramble S = s := by
  simp only [scramble, unscramble, subBytes, invSubBytes, shiftRows, invShiftRows, map, Column.map, S.sub_inv]

end Grid

variable {S : SBox} {w : Nat → Column}

/-- The key of round `r`. -/
def roundKey (w : Nat → Column) (r : Nat) : Grid := ⟨w (4 * r), w (4 * r + 1), w (4 * r + 2), w (4 * r + 3)⟩

/-- The block after `r` of the rounds that mix. -/
def rounds (S : SBox) (w : Nat → Column) : Nat → Grid → Grid
  | 0, s => s ^^^ roundKey w 0
  | r + 1, s => ((rounds S w r s).scramble S).mixColumns ^^^ roundKey w (r + 1)

/-- `Cipher`, with `nr` rounds. -/
def cipher (S : SBox) (w : Nat → Column) (nr : Nat) (s : Grid) : Grid :=
  (rounds S w (nr - 1) s).scramble S ^^^ roundKey w nr

/-- `r` of the rounds back. -/
def invRounds (S : SBox) (w : Nat → Column) : Nat → Grid → Grid
  | 0, s => s
  | r + 1, s => invRounds S w r (s.unscramble S ^^^ roundKey w (r + 1)).invMixColumns

/-- `InvCipher`, with `nr` rounds. -/
def invCipher (S : SBox) (w : Nat → Column) (nr : Nat) (s : Grid) : Grid :=
  (invRounds S w (nr - 1) (s ^^^ roundKey w nr)).unscramble S ^^^ roundKey w 0

/-- The rounds back take off the rounds. -/
theorem invRounds_rounds (s : Grid) : ∀ r,
    (invRounds S w r ((rounds S w r s).scramble S)).unscramble S ^^^ roundKey w 0 = s
  | 0 => by rw [invRounds, rounds, Grid.unscramble_scramble, Grid.xor_cancel]
  | r + 1 => by
    rw [invRounds, Grid.unscramble_scramble, rounds, Grid.xor_cancel, Grid.invMixColumns_mixColumns,
      invRounds_rounds s r]

/-- **What is enciphered is deciphered.** -/
theorem invCipher_cipher (nr : Nat) (s : Grid) : invCipher S w nr (cipher S w nr s) = s := by
  rw [invCipher, cipher, Grid.xor_cancel, invRounds_rounds]

/-- The rounds take off the rounds back. -/
theorem rounds_invRounds : ∀ (r : Nat) (s : Grid),
    (rounds S w r ((invRounds S w r s).unscramble S ^^^ roundKey w 0)).scramble S = s
  | 0, s => by rw [invRounds, rounds, Grid.xor_cancel, Grid.scramble_unscramble]
  | r + 1, s => by
    rw [invRounds, rounds, rounds_invRounds r, Grid.mixColumns_invMixColumns, Grid.xor_cancel,
      Grid.scramble_unscramble]

/-- **What is deciphered is enciphered.** -/
theorem cipher_invCipher (nr : Nat) (s : Grid) : cipher S w nr (invCipher S w nr s) = s := by
  rw [cipher, invCipher, rounds_invRounds, Grid.xor_cancel]

/-! ## 4. The schedule of the keys -/

/-- The constant of the `j`-th turn, from 1 on. -/
def rcon : Nat → UInt8
  | 0 => 0
  | 1 => 1
  | j + 2 => xtime (rcon (j + 1))

/-- What is added to column `i - nk` for column `i`, from the column before. -/
def keyStep (S : SBox) (nk i : Nat) (c : Column) : Column :=
  if i % nk = 0 then c.rot.map S.sub ^^^ ⟨rcon (i / nk), 0, 0, 0⟩
  else if 6 < nk ∧ i % nk = 4 then c.map S.sub else c

/-- `KeyExpansion` of a key of `nk` columns. -/
def keyExpansion (S : SBox) (nk : Nat) (key : Nat → Column) (i : Nat) : Column :=
  if i < nk ∨ nk = 0 then key i
  else keyExpansion S nk key (i - nk) ^^^ keyStep S nk i (keyExpansion S nk key (i - 1))
termination_by i
decreasing_by all_goals omega

theorem keyExpansion_key {nk i : Nat} (key : Nat → Column) (h : i < nk) : keyExpansion S nk key i = key i := by
  rw [keyExpansion, if_pos (Or.inl h)]

theorem keyExpansion_next {nk i : Nat} (key : Nat → Column) (hnk : 0 < nk) : keyExpansion S nk key (i + nk) =
    keyExpansion S nk key i ^^^ keyStep S nk (i + nk) (keyExpansion S nk key (i + nk - 1)) := by
  rw [keyExpansion, if_neg (by omega), Nat.add_sub_cancel]

end AndixOs.Rijndael
