/-
# Copying bytes through two translations

A copy reads its bytes one after the other through one translation and writes them through
another; either can fault, and then the copy stops in the middle.  Two addresses may lead to one
byte, and the two sides may overlap: a byte that is written is what a later read sees.

The rules say what a copy leaves alone, what it writes, and when two copies that start from
different memories move the same bytes.

Nothing here names the kernel.
-/
import AndixOs.Lib.Mem32
import Mathlib.Logic.Function.Basic

namespace AndixOs

variable {rd wr : Nat → Option Nat} {m m' : Mem} {n i a : Nat}

/-! ## 1. The copy -/

/-- One byte that a copy has moved. -/
structure Moved where
  dst : Nat
  src : Nat
  byte : UInt8
  deriving DecidableEq

/-- `n` bytes from index `i` on, in ascending order: whether the copy came to its end, the memory,
and the bytes moved. -/
def copyBytes (rd wr : Nat → Option Nat) : Nat → Nat → Mem → Bool × Mem × List Moved
  | 0, _, m => (true, m, [])
  | n + 1, i, m =>
    match rd i, wr i with
    | some a, some b =>
      let r := copyBytes rd wr n (i + 1) (store8 m b (m a))
      (r.1, r.2.1, ⟨b, a, m a⟩ :: r.2.2)
    | _, _ => (false, m, [])

/-- How one byte is copied. -/
theorem copyBytes_succ {b : Nat} (hr : rd i = some a) (hw : wr i = some b) :
    copyBytes rd wr (n + 1) i m =
      ((copyBytes rd wr n (i + 1) (store8 m b (m a))).1,
        (copyBytes rd wr n (i + 1) (store8 m b (m a))).2.1,
        ⟨b, a, m a⟩ :: (copyBytes rd wr n (i + 1) (store8 m b (m a))).2.2) := by
  rw [copyBytes, hr, hw]

/-- How a copy stops. -/
theorem copyBytes_fault (h : rd i = none ∨ wr i = none) :
    copyBytes rd wr (n + 1) i m = (false, m, []) := by
  rw [copyBytes]
  rcases h with h | h
  · rw [h]
  · rw [h]
    cases rd i <;> rfl

/-- The two cases of a copy of at least one byte. -/
theorem step_cases (rd wr : Nat → Option Nat) (i : Nat) :
    (∃ a b, rd i = some a ∧ wr i = some b) ∨ (rd i = none ∨ wr i = none) := by
  cases hr : rd i with
  | none => exact Or.inr (Or.inl rfl)
  | some a =>
    cases hw : wr i with
    | none => exact Or.inr (Or.inr rfl)
    | some b => exact Or.inl ⟨a, b, rfl, rfl⟩

/-! ## 2. What is moved -/

/-- A byte moved was read and written at one index. -/
theorem moved_of_mem :
    ∀ {n i : Nat} {m : Mem} {x : Moved}, x ∈ (copyBytes rd wr n i m).2.2 →
      ∃ j, i ≤ j ∧ j < i + n ∧ rd j = some x.src ∧ wr j = some x.dst
  | 0, _, _, x, h => absurd h (List.not_mem_nil)
  | n + 1, i, m, x, h => by
    rcases step_cases rd wr i with ⟨a, b, hr, hw⟩ | hf
    · rw [copyBytes_succ hr hw] at h
      rcases List.mem_cons.mp h with rfl | h
      · exact ⟨i, le_refl i, by omega, hr, hw⟩
      · obtain ⟨j, h1, h2, h3⟩ := moved_of_mem h
        exact ⟨j, by omega, by omega, h3⟩
    · rw [copyBytes_fault hf] at h
      exact absurd h (List.not_mem_nil)

/-- A copy comes to its end when no address faults. -/
theorem copyBytes_done :
    ∀ {n i : Nat} {m : Mem}, (copyBytes rd wr n i m).1 = true ↔
      ∀ j, i ≤ j → j < i + n → (rd j).isSome ∧ (wr j).isSome
  | 0, i, m => ⟨fun _ j h1 h2 => absurd h1 (by omega), fun _ => rfl⟩
  | n + 1, i, m => by
    rcases step_cases rd wr i with ⟨a, b, hr, hw⟩ | hf
    · rw [copyBytes_succ hr hw, copyBytes_done]
      constructor
      · intro h j h1 h2
        rcases Nat.eq_or_lt_of_le h1 with rfl | hlt
        · rw [hr, hw]
          exact ⟨rfl, rfl⟩
        · exact h j (by omega) (by omega)
      · exact fun h j h1 h2 => h j (by omega) (by omega)
    · rw [copyBytes_fault hf]
      constructor
      · exact fun h => absurd h Bool.false_ne_true
      · intro h
        obtain ⟨h1, h2⟩ := h i (le_refl i) (by omega)
        rcases hf with hf | hf
        · rw [hf] at h1
          exact absurd h1 (by simp)
        · rw [hf] at h2
          exact absurd h2 (by simp)

/-! ## 3. What is left alone, and what is written -/

/-- **The frame.**  A byte no address leads to is left alone. -/
theorem copyBytes_of_ne :
    ∀ {n i : Nat} {m : Mem}, (∀ j, i ≤ j → j < i + n → wr j ≠ some a) →
      (copyBytes rd wr n i m).2.1 a = m a
  | 0, _, _, _ => rfl
  | n + 1, i, m, h => by
    rcases step_cases rd wr i with ⟨x, b, hr, hw⟩ | hf
    · rw [copyBytes_succ hr hw, copyBytes_of_ne (fun j h1 h2 => h j (by omega) (by omega))]
      have hne : a ≠ b := by
        rintro rfl
        exact h i (le_refl i) (by omega) hw
      exact store8_of_ne hne
    · rw [copyBytes_fault hf]

/-- **The last write wins.**  Where the reads do not meet the writes, a byte written holds what
its last writer read. -/
theorem copyBytes_last {j b : Nat} :
    ∀ {n i : Nat} {m : Mem}, (copyBytes rd wr n i m).1 = true → i ≤ j → j < i + n →
      rd j = some a → wr j = some b →
      (∀ l, j < l → l < i + n → wr l ≠ some b) →
      (∀ l, i ≤ l → l < j → wr l ≠ some a) →
      (copyBytes rd wr n i m).2.1 b = m a
  | 0, i, m, _, h1, h2, _, _, _, _ => absurd h1 (by omega)
  | n + 1, i, m, hd, h1, h2, hr, hw, hlast, hsep => by
    rcases step_cases rd wr i with ⟨x, y, hx, hy⟩ | hf
    · rw [copyBytes_succ hx hy] at hd ⊢
      rcases Nat.eq_or_lt_of_le h1 with rfl | hlt
      · obtain rfl := Option.some.inj (hr.symm.trans hx)
        obtain rfl := Option.some.inj (hw.symm.trans hy)
        rw [copyBytes_of_ne (fun l h3 h4 => hlast l (by omega) (by omega))]
        exact if_pos rfl
      · rw [copyBytes_last hd (by omega) (by omega) hr hw
          (fun l h3 h4 => hlast l h3 (by omega)) (fun l h3 h4 => hsep l (by omega) h4)]
        have hne : a ≠ y := by
          rintro rfl
          exact hsep i (le_refl i) hlt hy
        exact store8_of_ne hne
    · rw [copyBytes_fault hf] at hd
      exact absurd hd Bool.false_ne_true

/-! ## 4. Two copies -/

/-- **Two memories that agree on what is read move the same bytes**, and agree afterwards wherever
they agreed before and wherever a byte was written. -/
theorem copyBytes_agree :
    ∀ {n i : Nat} {m m' : Mem} {Seen : Nat → Prop}, (∀ a, Seen a → m a = m' a) →
      (∀ j a, i ≤ j → j < i + n → rd j = some a → Seen a) →
      (copyBytes rd wr n i m).2.2 = (copyBytes rd wr n i m').2.2 ∧
      ∀ a, Seen a ∨ (∃ x ∈ (copyBytes rd wr n i m).2.2, x.dst = a) →
        (copyBytes rd wr n i m).2.1 a = (copyBytes rd wr n i m').2.1 a
  | 0, _, _, _, Seen, h, _ => by
    refine ⟨rfl, ?_⟩
    rintro a (ha | ⟨x, hx, -⟩)
    · exact h a ha
    · exact absurd hx List.not_mem_nil
  | n + 1, i, m, m', Seen, h, hr => by
    rcases step_cases rd wr i with ⟨x, y, hx, hy⟩ | hf
    · have hxy : m x = m' x := h x (hr i x (le_refl i) (by omega) hx)
      have hst : ∀ a, (Seen a ∨ a = y) → store8 m y (m x) a = store8 m' y (m' x) a := by
        intro a ha
        unfold store8
        by_cases hay : a = y
        · rw [if_pos hay, if_pos hay]
          exact hxy
        · rw [if_neg hay, if_neg hay]
          exact h a (ha.resolve_right hay)
      obtain ⟨h1, h2⟩ := copyBytes_agree (n := n) (i := i + 1) hst
        (fun j a h1 h2 hj => Or.inl (hr j a (by omega) (by omega) hj))
      rw [copyBytes_succ hx hy, copyBytes_succ hx hy]
      refine ⟨by rw [h1, hxy], ?_⟩
      rintro a (ha | ⟨z, hz, rfl⟩)
      · exact h2 a (Or.inl (Or.inl ha))
      · rcases List.mem_cons.mp hz with rfl | hz
        · exact h2 y (Or.inl (Or.inr rfl))
        · exact h2 z.dst (Or.inr ⟨z, hz, rfl⟩)
    · rw [copyBytes_fault hf, copyBytes_fault hf]
      refine ⟨rfl, ?_⟩
      rintro a (ha | ⟨x, hx, -⟩)
      · exact h a ha
      · exact absurd hx List.not_mem_nil

/-- Whether a copy comes to its end, and which addresses it uses, does not depend on the bytes. -/
theorem copyBytes_control :
    ∀ {n i : Nat} (m m' : Mem), (copyBytes rd wr n i m).1 = (copyBytes rd wr n i m').1
  | 0, _, _, _ => rfl
  | n + 1, i, m, m' => by
    rcases step_cases rd wr i with ⟨x, y, hx, hy⟩ | hf
    · rw [copyBytes_succ hx hy, copyBytes_succ hx hy]
      exact copyBytes_control _ _
    · rw [copyBytes_fault hf, copyBytes_fault hf]

/-! ## 5. Storing given bytes -/

/-- The bytes `src i`, `src (i + 1)`, …, `n` of them, stored through a translation: whether no store
faulted, and the memory. -/
def storeBytes (wr : Nat → Option Nat) (src : Nat → UInt8) : Nat → Nat → Mem → Bool × Mem
  | 0, _, m => (true, m)
  | n + 1, i, m =>
    match wr i with
    | some b => storeBytes wr src n (i + 1) (store8 m b (src i))
    | none => (false, m)

variable {src : Nat → UInt8}

/-- No store faults exactly when every address is translated. -/
theorem storeBytes_done :
    ∀ {n i : Nat} {m : Mem}, (storeBytes wr src n i m).1 = true ↔
      ∀ j, i ≤ j → j < i + n → (wr j).isSome = true
  | 0, i, m => ⟨fun _ j h1 h2 => absurd h1 (by omega), fun _ => rfl⟩
  | n + 1, i, m => by
    rw [storeBytes]
    cases hw : wr i with
    | some b =>
      simp only
      rw [storeBytes_done]
      constructor
      · intro h j h1 h2
        rcases Nat.eq_or_lt_of_le h1 with rfl | hlt
        · rw [hw]
          rfl
        · exact h j (by omega) (by omega)
      · exact fun h j h1 h2 => h j (by omega) (by omega)
    | none =>
      constructor
      · exact fun h => absurd h Bool.false_ne_true
      · intro h
        have hi := h i (le_refl i) (by omega)
        rw [hw] at hi
        exact absurd hi Bool.false_ne_true

/-- The frame. -/
theorem storeBytes_of_ne :
    ∀ {n i : Nat} {m : Mem}, (∀ j, i ≤ j → j < i + n → wr j ≠ some a) →
      (storeBytes wr src n i m).2 a = m a
  | 0, _, _, _ => rfl
  | n + 1, i, m, h => by
    rw [storeBytes]
    cases hw : wr i with
    | some b =>
      simp only
      rw [storeBytes_of_ne (fun j h1 h2 => h j (by omega) (by omega))]
      have hne : a ≠ b := by
        rintro rfl
        exact h i (le_refl i) (by omega) hw
      exact store8_of_ne hne
    | none => rfl

/-- **What is stored**, where no two addresses lead to one byte. -/
theorem storeBytes_at :
    ∀ {n i j : Nat} {m : Mem}, (storeBytes wr src n i m).1 = true → i ≤ j → j < i + n →
      (∀ x, i ≤ x → x < i + n → wr x = wr j → x = j) → wr j = some a →
      (storeBytes wr src n i m).2 a = src j
  | 0, i, j, m, _, h1, h2, _, _ => absurd h1 (by omega)
  | n + 1, i, j, m, hd, h1, h2, hinj, hj => by
    rw [storeBytes] at hd ⊢
    cases hw : wr i with
    | none =>
      rw [hw] at hd
      exact absurd hd Bool.false_ne_true
    | some b =>
      rw [hw] at hd
      simp only at hd ⊢
      rcases Nat.eq_or_lt_of_le h1 with rfl | hlt
      · obtain rfl := Option.some.inj (hw.symm.trans hj)
        rw [storeBytes_of_ne]
        · exact if_pos rfl
        · intro x hx1 hx2 hx
          have := hinj x (by omega) (by omega) (hx.trans hw.symm)
          omega
      · exact storeBytes_at hd (by omega) (by omega)
          (fun x hx1 hx2 => hinj x (by omega) (by omega)) hj

/-- A byte is either one that a run of stores reaches, whatever the memory, or one that no such run
touches. -/
theorem storeBytes_covers (wr : Nat → Option Nat) (c : UInt8) :
    ∀ (n i x : Nat), (∀ m, (storeBytes wr (fun _ => c) n i m).2 x = c) ∨
      ∀ (s : Nat → UInt8) (n' : Nat) (m : Mem), n' ≤ n → (storeBytes wr s n' i m).2 x = m x
  | 0, i, x => by
    refine Or.inr fun s n' m hn => ?_
    obtain rfl := Nat.le_zero.mp hn
    rfl
  | n + 1, i, x => by
    cases hw : wr i with
    | none =>
      refine Or.inr fun s n' m _ => ?_
      cases n' with
      | zero => rfl
      | succ n' => simp only [storeBytes, hw]
    | some b =>
      rcases storeBytes_covers wr c n (i + 1) x with hcov | hout
      · exact Or.inl fun m => by simpa only [storeBytes, hw] using hcov _
      · by_cases hx : x = b
        · refine Or.inl fun m => ?_
          simp only [storeBytes, hw]
          rw [hout _ n _ (le_refl n)]
          exact if_pos hx
        · refine Or.inr fun s n' m hn => ?_
          cases n' with
          | zero => rfl
          | succ n' =>
            simp only [storeBytes, hw]
            rw [hout s n' _ (Nat.le_of_succ_le_succ hn)]
            exact store8_of_ne hx

end AndixOs
