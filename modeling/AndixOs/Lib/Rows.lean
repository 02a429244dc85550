/-
# Rows of bytes in memory

A structure in memory is a row of bytes at an address.  `HoldsAt` says which row; what it says of a row
that is put together it says of the parts (`holdsAt_append`), and a word in the row is read back
(`HoldsAt.word`).  A row is read by `rowAt` and written by `putRow`: what is written is read
(`rowAt_putRow`), and nothing else has changed (`putRow_of_ne`).  The strings in a row are what ends in it
with a `NUL` (`terminated`), and `strAt_of_held` says where a search for the next one gets to.

Nothing here names the kernel.
-/
import AndixOs.Lib.Bytes
import AndixOs.Lib.CString

namespace AndixOs

variable {m m' : Mem} {a x n k : Nat} {l l' : List UInt8}

/-! ## 1. Which row -/

/-- The bytes `l` stand at `a`. -/
def HoldsAt (m : Mem) : Nat → List UInt8 → Prop
  | _, [] => True
  | a, b :: l => m a = b ∧ HoldsAt m (a + 1) l

instance HoldsAt.decidable (m : Mem) : ∀ a l, Decidable (HoldsAt m a l)
  | _, [] => inferInstanceAs (Decidable True)
  | a, _ :: l =>
    have := HoldsAt.decidable m (a + 1) l
    inferInstanceAs (Decidable (_ ∧ _))

theorem holdsAt_append : ∀ {l : List UInt8} {a : Nat},
    HoldsAt m a (l ++ l') ↔ HoldsAt m a l ∧ HoldsAt m (a + l.length) l'
  | [], _ => by simp [HoldsAt]
  | b :: l, a => by
    have hnext : a + (b :: l).length = a + 1 + l.length := by
      simp only [List.length_cons]
      omega
    rw [List.cons_append, HoldsAt, HoldsAt, holdsAt_append, hnext, and_assoc]

/-- A word is read back. -/
theorem HoldsAt.word {w : UInt32} (h : HoldsAt m a (le32 w)) : word m a = w := by
  obtain ⟨h0, h1, h2, h3, -⟩ := h
  obtain ⟨b0, b1, b2, b3⟩ := toNat_shiftRight_toUInt8 w
  have hw := w.toNat_lt
  have hload : load32 m a = w.toNat := by
    rw [load32, h0, h1, h2, h3, b0, b1, b2, b3]
    omega
  rw [AndixOs.word, hload, UInt32.ofNat_toNat]

/-! ## 2. Rows that are read and written -/

/-- The `n` bytes at an address. -/
def rowAt (m : Mem) : Nat → Nat → List UInt8
  | _, 0 => []
  | a, n + 1 => m a :: rowAt m (a + 1) n

/-- A copy of a row to an address. -/
def putRow : Mem → Nat → List UInt8 → Mem
  | m, _, [] => m
  | m, a, b :: l => putRow (store8 m a b) (a + 1) l

@[simp] theorem length_rowAt : ∀ {n a : Nat}, (rowAt m a n).length = n
  | 0, _ => rfl
  | n + 1, _ => congrArg (· + 1) (length_rowAt (n := n))

theorem rowAt_add : ∀ {n a : Nat}, rowAt m a (n + k) = rowAt m a n ++ rowAt m (a + n) k
  | 0, a => by simp [rowAt]
  | n + 1, a => by
    have hnext : a + (n + 1) = a + 1 + n := by omega
    rw [Nat.add_right_comm, rowAt, rowAt, rowAt_add, hnext, List.cons_append]

theorem rowAt_congr : ∀ {n a : Nat}, (∀ x, a ≤ x → x < a + n → m' x = m x) → rowAt m' a n = rowAt m a n
  | 0, _, _ => rfl
  | n + 1, a, h => by
    have hrest : rowAt m' (a + 1) n = rowAt m (a + 1) n :=
      rowAt_congr fun x hlow hhigh => h x (by omega) (by omega)
    rw [rowAt, rowAt, h a (Nat.le_refl a) (by omega), hrest]

/-- A row that is held is the row that is read. -/
theorem holdsAt_iff_rowAt : ∀ {l : List UInt8} {a : Nat}, HoldsAt m a l ↔ rowAt m a l.length = l
  | [], _ => by simp [HoldsAt, rowAt]
  | b :: l, a => by
    rw [HoldsAt, holdsAt_iff_rowAt, List.length_cons, rowAt, List.cons_eq_cons]

/-- **What is not in the row** has not changed. -/
theorem putRow_of_ne : ∀ {l : List UInt8} {m : Mem} {a : Nat}, x < a ∨ a + l.length ≤ x →
    putRow m a l x = m x
  | [], _, _, _ => rfl
  | b :: l, m, a, h => by
    rw [List.length_cons] at h
    rw [putRow, putRow_of_ne (by omega), store8_of_ne (by omega)]

/-- **What is written** is read. -/
theorem rowAt_putRow : ∀ {l : List UInt8} {m : Mem} {a : Nat}, rowAt (putRow m a l) a l.length = l
  | [], _, _ => rfl
  | b :: l, m, a => by
    have hfirst : putRow (store8 m a b) (a + 1) l a = b := by
      rw [putRow_of_ne (Or.inl (Nat.lt_succ_self a)), store8, if_pos rfl]
    rw [List.length_cons, rowAt, putRow, hfirst, rowAt_putRow]

/-- A row apart from the one that is written. -/
theorem rowAt_putRow_of_ne (h : a + n ≤ x ∨ x + l.length ≤ a) : rowAt (putRow m x l) a n = rowAt m a n :=
  rowAt_congr fun y _ _ => putRow_of_ne (by omega)

/-! ## 3. Accesses -/

/-- An access through a pointer.  Addresses are not wrapped: what is beyond the end of the address space
is in no buffer. -/
inductive Access
  | read (addr len : Nat)
  | write (addr len : Nat)
  deriving DecidableEq

/-- The address is one that is read or written. -/
def Touched (x : Nat) : List Access → Prop
  | [] => False
  | .read addr len :: rest => (addr ≤ x ∧ x < addr + len) ∨ Touched x rest
  | .write addr len :: rest => (addr ≤ x ∧ x < addr + len) ∨ Touched x rest

theorem touched_append {rest : List Access} : ∀ {accesses : List Access},
    Touched x (accesses ++ rest) ↔ Touched x accesses ∨ Touched x rest
  | [] => by simp [Touched]
  | .read .. :: accesses => by rw [List.cons_append, Touched, Touched, touched_append, or_assoc]
  | .write .. :: accesses => by rw [List.cons_append, Touched, Touched, touched_append, or_assoc]

/-! ## 4. Strings in a row -/

/-- The strings that end in the row, one after the other.  What is behind the last `NUL` is none of them. -/
def terminated : List UInt8 → List (List UInt8)
  | [] => []
  | c :: l =>
    if c = 0 then [] :: terminated l
    else
      match terminated l with
      | [] => []
      | s :: ss => (c :: s) :: ss

theorem terminated_of_not_mem : ∀ {l : List UInt8}, 0 ∉ l → terminated l = []
  | [], _ => rfl
  | c :: l, h => by
    obtain ⟨hc, hl⟩ := not_or.mp (List.mem_cons.not.mp h)
    rw [terminated, if_neg (Ne.symm hc), terminated_of_not_mem hl]

theorem terminated_append : ∀ {s : List UInt8}, 0 ∉ s → terminated (s ++ 0 :: l) = s :: terminated l
  | [], _ => if_pos rfl
  | c :: s, h => by
    obtain ⟨hc, hs⟩ := not_or.mp (List.mem_cons.not.mp h)
    rw [List.cons_append, terminated, if_neg (Ne.symm hc), terminated_append hs]

/-- **A search for the end of a string** passes a row without a `NUL`. -/
theorem strAt_of_held : ∀ {l : List UInt8} {a : Nat}, HoldsAt m a l → 0 ∉ l →
    strAt m (l.length + k) a = (strAt m k (a + l.length)).map (l ++ ·)
  | [], a, _, _ => by simp
  | c :: l, a, h, hnul => by
    obtain ⟨hc, hl⟩ := not_or.mp (List.mem_cons.not.mp hnul)
    have hne : m a ≠ 0 := by
      rw [h.1]
      exact Ne.symm hc
    have hnext : a + (l.length + 1) = a + 1 + l.length := by omega
    rw [List.length_cons, Nat.add_right_comm, strAt, if_neg hne, strAt_of_held h.2 hl, h.1, hnext,
      Option.map_map]
    rfl

/-- A string that ends in the row. -/
theorem strAt_of_terminated {s : List UInt8} (h : HoldsAt m a (s ++ 0 :: l)) (hnul : 0 ∉ s)
    (hn : s.length < n) : strAt m n a = some s := by
  obtain ⟨k, rfl⟩ : ∃ k, n = s.length + (k + 1) := ⟨n - s.length - 1, by omega⟩
  obtain ⟨hs, hrest⟩ := holdsAt_append.mp h
  rw [strAt_of_held hs hnul, strAt, if_pos hrest.1, Option.map_some, List.append_nil]

end AndixOs
