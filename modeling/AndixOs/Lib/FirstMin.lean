/-
# The first of the smallest

A search goes through a list once and keeps the smallest element that will do; of several equally
small ones it keeps the one it saw first.  `better` is one round, `FirstMin` what is left at the
end.

Nothing here names the kernel.
-/
import Mathlib.Data.List.Induction

namespace AndixOs

variable {α : Type} {p : α → Bool} {f : α → Nat} {xs : List α} {x y : α}

/-- The candidate after one more element. -/
def better (p : α → Bool) (f : α → Nat) : Option α → α → Option α
  | none, y => if p y then some y else none
  | some x, y => if p y && f y < f x then some y else some x

/-- `x` will do, everything before it that will do is larger, and nothing behind it is smaller. -/
def FirstMin (p : α → Bool) (f : α → Nat) (xs : List α) (x : α) : Prop :=
  ∃ pre post, xs = pre ++ x :: post ∧ p x = true ∧ (∀ y ∈ pre, p y = true → f x < f y) ∧
    ∀ y ∈ post, p y = true → f x ≤ f y

theorem FirstMin.mem (h : FirstMin p f xs x) : x ∈ xs := by
  obtain ⟨pre, post, rfl, -⟩ := h
  simp

theorem FirstMin.fits (h : FirstMin p f xs x) : p x = true := by
  obtain ⟨_, _, -, hx, -⟩ := h
  exact hx

/-- Nothing that will do is smaller. -/
theorem FirstMin.le (h : FirstMin p f xs x) (hy : y ∈ xs) (hp : p y = true) : f x ≤ f y := by
  obtain ⟨pre, post, rfl, -, hpre, hpost⟩ := h
  rcases List.mem_append.mp hy with hy | hy
  · exact Nat.le_of_lt (hpre y hy hp)
  · rcases List.mem_cons.mp hy with rfl | hy
    · exact Nat.le_refl _
    · exact hpost y hy hp

/-- There is at most one. -/
theorem FirstMin.unique (h : FirstMin p f xs x) (h' : FirstMin p f xs y) : x = y := by
  have hxy : f x ≤ f y := h.le h'.mem h'.fits
  have hyx : f y ≤ f x := h'.le h.mem h.fits
  obtain ⟨pre, post, rfl, hx, hpre, -⟩ := h
  obtain ⟨pre', post', hsplit, hy, hpre', -⟩ := h'
  rcases List.append_eq_append_iff.mp hsplit with ⟨mid, rfl, htail⟩ | ⟨mid, rfl, htail⟩
  · cases mid with
    | nil => exact (List.cons.inj htail).1
    | cons z mid =>
      obtain ⟨rfl, -⟩ := List.cons.inj htail
      exact absurd (hpre' x (by simp) hx) (by omega)
  · cases mid with
    | nil => exact (List.cons.inj htail).1.symm
    | cons z mid =>
      obtain ⟨rfl, -⟩ := List.cons.inj htail
      exact absurd (hpre y (by simp) hy) (by omega)

/-- **The search finds the first of the smallest**, or nothing will do. -/
theorem firstMin_foldl (p : α → Bool) (f : α → Nat) (xs : List α) :
    match xs.foldl (better p f) none with
    | none => ∀ x ∈ xs, p x = false
    | some x => FirstMin p f xs x := by
  induction xs using List.reverseRecOn with
  | nil => simp
  | append_singleton xs y ih =>
    rw [List.foldl_append, List.foldl_cons, List.foldl_nil]
    cases hfold : xs.foldl (better p f) none with
    | none =>
      rw [hfold] at ih
      cases hy : p y with
      | false =>
        simp only [better, hy]
        intro x hx
        rcases List.mem_append.mp hx with hx | hx
        · exact ih x hx
        · rw [List.mem_singleton.mp hx, hy]
      | true =>
        simp only [better, hy]
        refine ⟨xs, [], rfl, hy, fun x hx hpx => ?_, by simp⟩
        rw [ih x hx] at hpx
        cases hpx
    | some x =>
      rw [hfold] at ih
      by_cases hlt : (p y && f y < f x) = true
      · simp only [better, if_pos hlt]
        simp only [Bool.and_eq_true, decide_eq_true_eq] at hlt
        exact ⟨xs, [], rfl, hlt.1, fun z hz hpz => Nat.lt_of_lt_of_le hlt.2 (ih.le hz hpz), by simp⟩
      · simp only [better, if_neg hlt]
        obtain ⟨pre, post, rfl, hx, hpre, hpost⟩ := ih
        refine ⟨pre, post ++ [y], by simp, hx, hpre, fun z hz hpz => ?_⟩
        rcases List.mem_append.mp hz with hz | hz
        · exact hpost z hz hpz
        · obtain rfl := List.mem_singleton.mp hz
          simpa [hpz] using hlt

end AndixOs
