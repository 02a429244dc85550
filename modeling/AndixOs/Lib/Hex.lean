/-
# Hexadecimal digits

Bytes that are hexadecimal digits, in either case, and the number that a row of them stands for.  The
first digit is the highest one.

* `hexValue_append`, `hexValue_lt`: the number of a row that is put together, and its bound;
* `hexValue_inj`: rows of one length that stand for one number differ in the case of letters only.

Nothing here names the kernel.
-/
import Mathlib.Data.List.GetD
import Mathlib.Data.Nat.Digits.Defs
import Mathlib.Data.Nat.Digits.Lemmas

namespace AndixOs

/-! ## 1. One digit -/

/-- The value of a digit. -/
def hexDigit (c : UInt8) : Option Nat :=
  if 0x30 ≤ c ∧ c ≤ 0x39 then some (c.toNat - 0x30)
  else if 0x41 ≤ c ∧ c ≤ 0x46 then some (c.toNat - 0x37)
  else if 0x61 ≤ c ∧ c ≤ 0x66 then some (c.toNat - 0x57)
  else none

/-- The byte is a digit. -/
def IsHex (c : UInt8) : Prop := (hexDigit c).isSome = true

instance (c : UInt8) : Decidable (IsHex c) := inferInstanceAs (Decidable (_ = true))

/-- Its value, and 0 for any other byte. -/
def digitOf (c : UInt8) : Nat := (hexDigit c).getD 0

/-- The letter in lower case, and any other byte as it is. -/
def lowerCase (c : UInt8) : UInt8 := if 0x41 ≤ c ∧ c ≤ 0x5A then c + 0x20 else c

variable {c d : UInt8} {g g' : List UInt8}

theorem isHex_iff : IsHex c ↔
    (0x30 ≤ c ∧ c ≤ 0x39) ∨ (0x41 ≤ c ∧ c ≤ 0x46) ∨ (0x61 ≤ c ∧ c ≤ 0x66) := by
  rw [IsHex, hexDigit]
  by_cases h0 : 0x30 ≤ c ∧ c ≤ 0x39
  · simp [h0]
  by_cases h1 : 0x41 ≤ c ∧ c ≤ 0x46
  · simp [h0, h1]
  by_cases h2 : 0x61 ≤ c ∧ c ≤ 0x66
  · simp [h0, h1, h2]
  · simp [h0, h1, h2]

/-- A digit is in one of three ranges. -/
theorem isHex_cases (h : IsHex c) :
    (0x30 ≤ c.toNat ∧ c.toNat ≤ 0x39 ∧ digitOf c = c.toNat - 0x30 ∧ lowerCase c = c) ∨
    (0x41 ≤ c.toNat ∧ c.toNat ≤ 0x46 ∧ digitOf c = c.toNat - 0x37 ∧
      (lowerCase c).toNat = c.toNat + 0x20) ∨
    (0x61 ≤ c.toNat ∧ c.toNat ≤ 0x66 ∧ digitOf c = c.toNat - 0x57 ∧ lowerCase c = c) := by
  simp only [IsHex, digitOf, hexDigit, lowerCase, UInt8.le_iff_toNat_le, UInt8.reduceToNat] at h ⊢
  by_cases h0 : 0x30 ≤ c.toNat ∧ c.toNat ≤ 0x39
  · rw [if_pos h0, if_neg (by omega)]
    exact Or.inl ⟨h0.1, h0.2, rfl, rfl⟩
  by_cases h1 : 0x41 ≤ c.toNat ∧ c.toNat ≤ 0x46
  · have hlower : (c + 0x20).toNat = c.toNat + 0x20 := by
      rw [UInt8.toNat_add]
      exact Nat.mod_eq_of_lt (Nat.lt_of_le_of_lt (Nat.add_le_add_right h1.2 0x20) (by decide))
    rw [if_neg h0, if_pos h1, if_pos (by omega)]
    exact Or.inr (Or.inl ⟨h1.1, h1.2, rfl, hlower⟩)
  by_cases h2 : 0x61 ≤ c.toNat ∧ c.toNat ≤ 0x66
  · rw [if_neg h0, if_neg h1, if_pos h2, if_neg (by omega)]
    exact Or.inr (Or.inr ⟨h2.1, h2.2, rfl, rfl⟩)
  · rw [if_neg h0, if_neg h1, if_neg h2] at h
    exact absurd h Bool.false_ne_true

/-- A byte that is no digit. -/
theorem ne_of_isHex {b : UInt8} (h : IsHex c) (hb : ¬IsHex b) : c ≠ b := by
  rintro rfl
  exact hb h

theorem digitOf_lt (h : IsHex c) : digitOf c < 16 := by
  rcases isHex_cases h with h | h | h <;> omega

/-- **Digits of one value** differ in their case only. -/
theorem lowerCase_eq_iff (hc : IsHex c) (hd : IsHex d) :
    lowerCase c = lowerCase d ↔ digitOf c = digitOf d := by
  rw [← UInt8.toNat_inj]
  rcases isHex_cases hc with ⟨hc0, hc1, hc2, hc3⟩ | ⟨hc0, hc1, hc2, hc3⟩ | ⟨hc0, hc1, hc2, hc3⟩ <;>
    rcases isHex_cases hd with ⟨hd0, hd1, hd2, hd3⟩ | ⟨hd0, hd1, hd2, hd3⟩ | ⟨hd0, hd1, hd2, hd3⟩ <;>
    rw [hc2, hc3, hd2, hd3] <;> omega

/-! ## 2. A row of digits -/

section Begins

variable {rest : List UInt8} {b : UInt8}

/-- What a row does not begin with. -/
theorem head_ne_of_isHex (h : ∀ c ∈ g, IsHex c) (hne : g ≠ []) (hb : ¬IsHex b) :
    (g ++ rest).head? ≠ some b := by
  obtain ⟨c, g, rfl⟩ := List.exists_cons_of_ne_nil hne
  intro heq
  exact ne_of_isHex (h c List.mem_cons_self) hb (Option.some.inj heq)

/-- What does not come second, if it does not come behind the row. -/
theorem second_ne_of_isHex (h : ∀ c ∈ g, IsHex c) (hne : g ≠ []) (hb : ¬IsHex b)
    (hrest : rest.head? ≠ some b) : (g ++ rest)[1]? ≠ some b := by
  obtain ⟨c, g, rfl⟩ := List.exists_cons_of_ne_nil hne
  cases g with
  | nil =>
    rw [List.singleton_append, List.getElem?_cons_succ, ← List.head?_eq_getElem?]
    exact hrest
  | cons d g =>
    intro heq
    exact ne_of_isHex (h d (List.mem_cons_of_mem c List.mem_cons_self)) hb (Option.some.inj heq)

end Begins

/-- The number that a row of digits stands for. -/
def hexValue (g : List UInt8) : Nat := Nat.ofDigits 16 (g.map digitOf).reverse

theorem hexValue_append (g g' : List UInt8) :
    hexValue (g ++ g') = hexValue g * 16 ^ g'.length + hexValue g' := by
  rw [hexValue, List.map_append, List.reverse_append, Nat.ofDigits_append, List.length_reverse,
    List.length_map, Nat.add_comm, Nat.mul_comm]
  rfl

theorem hexValue_cons (c : UInt8) (g : List UInt8) :
    hexValue (c :: g) = digitOf c * 16 ^ g.length + hexValue g := by
  have hone : hexValue [c] = digitOf c := Nat.ofDigits_singleton
  rw [← List.singleton_append, hexValue_append, hone]

theorem hexValue_lt (h : ∀ c ∈ g, IsHex c) : hexValue g < 16 ^ g.length := by
  have hlt := Nat.ofDigits_lt_base_pow_length (b := 16) (l := (g.map digitOf).reverse) (by decide) (by
    intro x hx
    obtain ⟨c, hc, rfl⟩ := List.mem_map.mp (List.mem_reverse.mp hx)
    exact digitOf_lt (h c hc))
  rw [List.length_reverse, List.length_map] at hlt
  exact hlt

/-- **Rows of one length that stand for one number** differ in the case of letters only. -/
theorem hexValue_inj (h : ∀ c ∈ g, IsHex c) (h' : ∀ c ∈ g', IsHex c) (hlen : g.length = g'.length) :
    hexValue g = hexValue g' ↔ g.map lowerCase = g'.map lowerCase := by
  induction g generalizing g' with
  | nil =>
    obtain rfl := List.eq_nil_of_length_eq_zero hlen.symm
    exact iff_of_true rfl rfl
  | cons c g ih =>
    cases g' with
    | nil => exact absurd hlen nofun
    | cons d g' =>
      obtain ⟨hc, hg⟩ := List.forall_mem_cons.mp h
      obtain ⟨hd, hg'⟩ := List.forall_mem_cons.mp h'
      have hlen : g.length = g'.length := Nat.succ.inj hlen
      have hlt := hexValue_lt hg
      have hlt' := hexValue_lt hg'
      rw [hexValue_cons, hexValue_cons, List.map_cons, List.map_cons, List.cons.injEq,
        lowerCase_eq_iff hc hd, ← ih hg hg' hlen, hlen]
      rw [hlen] at hlt
      constructor
      · intro heq
        have hdigit : digitOf c = digitOf d := by
          have hdiv := congrArg (· / 16 ^ g'.length) heq
          simpa [Nat.add_comm, Nat.add_mul_div_right, Nat.div_eq_of_lt, hlt, hlt'] using hdiv
        rw [hdigit] at heq
        exact ⟨hdigit, Nat.add_left_cancel heq⟩
      · rintro ⟨hdigit, hrest⟩
        rw [hdigit, hrest]

/-- Two digits at a time: the number to the base 256. -/
theorem hexValue_pairs {n : Nat} (h : g.length = 2 * n) : hexValue g =
    Nat.ofDigits 256 ((List.range n).map fun j => hexValue [g.getD (2 * j) 0, g.getD (2 * j + 1) 0]).reverse := by
  induction n generalizing g with
  | zero =>
    obtain rfl := List.eq_nil_of_length_eq_zero h
    rfl
  | succ n ih =>
    obtain ⟨c, g, rfl⟩ := List.exists_cons_of_length_pos (l := g) (by omega)
    rw [List.length_cons] at h
    obtain ⟨d, g, rfl⟩ := List.exists_cons_of_length_pos (l := g) (by omega)
    have hlen : g.length = 2 * n := by
      rw [List.length_cons] at h
      omega
    have hrest : ∀ j, [(c :: d :: g).getD (2 * (j + 1)) 0, (c :: d :: g).getD (2 * (j + 1) + 1) 0] =
        [g.getD (2 * j) 0, g.getD (2 * j + 1) 0] := fun j => rfl
    have hsplit : hexValue (c :: d :: g) = hexValue [c, d] * 16 ^ g.length + hexValue g :=
      hexValue_append [c, d] g
    rw [hsplit, ih hlen, hlen, List.range_succ_eq_map, List.map_cons, List.map_map, List.reverse_cons,
      Nat.ofDigits_append, Nat.ofDigits_singleton, List.length_reverse, List.length_map, List.length_range,
      Nat.pow_mul, Nat.add_comm, Nat.mul_comm]
    simp only [Function.comp_def, Nat.succ_eq_add_one, hrest]
    rfl

/-- A row of so many digits. -/
structure HexRow (n : Nat) where
  chars : List UInt8
  length_eq : chars.length = n
  hex : ∀ c ∈ chars, IsHex c

theorem HexRow.value_lt {n : Nat} (r : HexRow n) : hexValue r.chars < 16 ^ n := by
  have hlt := hexValue_lt r.hex
  rw [r.length_eq] at hlt
  exact hlt

theorem HexRow.ne_nil {n : Nat} (r : HexRow n) (hn : 0 < n) : r.chars ≠ [] :=
  List.ne_nil_of_length_pos (hn.trans_eq r.length_eq.symm)

/-- Two digits of a row. -/
theorem HexRow.pair {n k : Nat} (r : HexRow n) (hk : k + 1 < n) :
    ∀ c ∈ [r.chars.getD k 0, r.chars.getD (k + 1) 0], IsHex c := by
  have hget : ∀ i < n, IsHex (r.chars.getD i 0) := by
    intro i hi
    rw [List.getD_eq_getElem _ _ (hi.trans_eq r.length_eq.symm)]
    exact r.hex _ (List.getElem_mem _)
  exact List.forall_mem_cons.mpr ⟨hget k (Nat.lt_of_succ_lt hk), List.forall_mem_singleton.mpr (hget _ hk)⟩

theorem HexRow.take_two {n k : Nat} (r : HexRow n) (hk : k + 1 < n) :
    (r.chars.drop k).take 2 = [r.chars.getD k 0, r.chars.getD (k + 1) 0] := by
  have hsnd : k + 1 < r.chars.length := hk.trans_eq r.length_eq.symm
  have hfst : k < r.chars.length := Nat.lt_of_succ_lt hsnd
  rw [List.drop_eq_getElem_cons hfst, List.drop_eq_getElem_cons hsnd, List.getD_eq_getElem _ _ hfst,
    List.getD_eq_getElem _ _ hsnd]
  rfl

/-- The two digits as a row. -/
def HexRow.pairAt {n : Nat} (r : HexRow n) (k : Nat) (hk : k + 1 < n) : HexRow 2 :=
  ⟨[r.chars.getD k 0, r.chars.getD (k + 1) 0], rfl, r.pair hk⟩

end AndixOs
