/-
# Messages in blocks

A function that works on blocks is run over a message of which it is given one part after the other: what
does not fill a block is kept until the next part comes.  `Streamed` is what holds then, and there is a rule for
each thing that can be done with a part: it is kept, or it fills the block, or it is a block.

Nothing here names the kernel.
-/
import Mathlib.Tactic.Ring

namespace AndixOs

variable {α σ : Type} {f : σ → List α → σ} {b : Nat} {init s : σ} {msg rest part : List α}

/-- So many blocks of a row. -/
def foldBlocks (f : σ → List α → σ) (b : Nat) : Nat → List α → σ → σ
  | 0, _, s => s
  | k + 1, data, s => foldBlocks f b k (data.drop b) (f s (data.take b))

/-- The blocks of a row do not depend on what comes behind them. -/
theorem foldBlocks_append : ∀ (k : Nat) (data rest : List α) (s : σ), k * b ≤ data.length →
    foldBlocks f b k (data ++ rest) s = foldBlocks f b k data s
  | 0, _, _, _, _ => rfl
  | k + 1, data, rest, s, h => by
    have hmul : (k + 1) * b = k * b + b := by ring
    rw [foldBlocks, foldBlocks, List.take_append_of_le_length (by omega), List.drop_append_of_le_length (by omega),
      foldBlocks_append k _ _ _ (by rw [List.length_drop]; omega)]

/-- One block more at the end. -/
theorem foldBlocks_snoc : ∀ (k : Nat) (data block : List α) (s : σ), data.length = k * b → block.length = b →
    foldBlocks f b (k + 1) (data ++ block) s = f (foldBlocks f b k data s) block
  | 0, data, block, s, h, hb => by
    have hnil : data = [] := List.eq_nil_of_length_eq_zero (by omega)
    subst hnil
    simp [foldBlocks, ← hb]
  | k + 1, data, block, s, h, hb => by
    have hmul : (k + 1) * b = k * b + b := by ring
    rw [foldBlocks, List.take_append_of_le_length (by omega), List.drop_append_of_le_length (by omega),
      foldBlocks_snoc k _ _ _ (by rw [List.length_drop]; omega) hb, foldBlocks]

/-- A block function that another one simulates. -/
theorem foldBlocks_map {τ : Type} {g : τ → List α → τ} (v : σ → τ)
    (hv : ∀ s block, v (f s block) = g (v s) block) : ∀ (k : Nat) (data : List α) (s : σ),
      v (foldBlocks f b k data s) = foldBlocks g b k data (v s)
  | 0, _, _ => rfl
  | k + 1, data, s => by rw [foldBlocks, foldBlocks, foldBlocks_map v hv k, hv]

/-- The state has taken in the whole blocks of the message, and what is left of it is kept. -/
def Streamed (f : σ → List α → σ) (b : Nat) (init : σ) (msg : List α) (s : σ) (rest : List α) : Prop :=
  ∃ k whole, msg = whole ++ rest ∧ whole.length = k * b ∧ rest.length < b ∧ s = foldBlocks f b k whole init

theorem Streamed.start (hb : 0 < b) : Streamed f b init [] init [] :=
  ⟨0, [], rfl, by simp, hb, rfl⟩

/-- A part that does not fill the block is kept. -/
theorem Streamed.keep (h : Streamed f b init msg s rest) (part : List α) (hlen : rest.length + part.length < b) :
    Streamed f b init (msg ++ part) s (rest ++ part) := by
  obtain ⟨k, whole, rfl, hwhole, -, hs⟩ := h
  exact ⟨k, whole, by simp, hwhole, by simpa using hlen, hs⟩

/-- **A part that fills the block** is taken in with what was kept. -/
theorem Streamed.fill (h : Streamed f b init msg s rest) (part : List α) (hlen : rest.length + part.length = b) :
    Streamed f b init (msg ++ part) (f s (rest ++ part)) [] := by
  obtain ⟨k, whole, rfl, hwhole, hrest, hs⟩ := h
  have hblock : (rest ++ part).length = b := by simpa using hlen
  refine ⟨k + 1, whole ++ (rest ++ part), by simp, ?_, Nat.lt_of_le_of_lt (Nat.zero_le _) hrest, ?_⟩
  · rw [List.length_append, hwhole, hblock]
    ring
  · rw [foldBlocks_snoc k _ _ _ hwhole hblock, hs]

/-- What is kept is what is left of the length. -/
theorem Streamed.length (h : Streamed f b init msg s rest) : rest.length = msg.length % b := by
  obtain ⟨k, whole, rfl, hwhole, hrest, -⟩ := h
  rw [List.length_append, hwhole, Nat.mul_comm, Nat.mul_add_mod, Nat.mod_eq_of_lt hrest]

/-- **A message of whole blocks** has been taken in. -/
theorem Streamed.whole (h : Streamed f b init msg s rest) (hmsg : msg.length % b = 0) :
    s = foldBlocks f b (msg.length / b) msg init := by
  have hnil : rest = [] := List.eq_nil_of_length_eq_zero (by rw [h.length, hmsg])
  obtain ⟨k, whole, rfl, hwhole, hrest, hs⟩ := h
  subst hnil
  have hb : 0 < b := Nat.lt_of_le_of_lt (Nat.zero_le _) hrest
  rw [List.append_nil, hwhole, Nat.mul_div_cancel _ hb, hs]

end AndixOs
