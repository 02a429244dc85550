/-
# Loops that may not end

A loop does its body until the body says what the result is, and that may be never.  `runLoop` makes
a number of rounds; `Ends` says that some number is enough.  Where the states of the rounds are known
one by one, the first of them that ends decides (`runLoop_of_rounds`), and if none does, the loop goes on
for ever (`not_ends_of_rounds`).

A loop may walk: what it looks at says whether it goes on, and where to.  Among finitely many places it
ends exactly when it does not come back to one (`Walks.ends_iff`).

Nothing here names the kernel.
-/
import Mathlib.Data.Fintype.Pigeonhole
import Mathlib.Logic.Function.Iterate
import Mathlib.Order.Monotone.Basic

namespace AndixOs

variable {S R : Type} {body : S → S ⊕ R} {s : S} {r r' : R} {f : Nat → S} {n : Nat}

/-- The result, if the loop comes to it in this many rounds. -/
def runLoop (body : S → S ⊕ R) : Nat → S → Option R
  | 0, _ => none
  | fuel + 1, s =>
    match body s with
    | .inl s => runLoop body fuel s
    | .inr r => some r

theorem runLoop_inl {fuel : Nat} {s s' : S} (h : body s = .inl s') :
    runLoop body (fuel + 1) s = runLoop body fuel s' := by
  rw [runLoop, h]

theorem runLoop_inr {fuel : Nat} {s : S} (h : body s = .inr r) : runLoop body (fuel + 1) s = some r := by
  rw [runLoop, h]

/-- The loop ends with this result. -/
def Ends (body : S → S ⊕ R) (s : S) (r : R) : Prop := ∃ fuel, runLoop body fuel s = some r

/-- The rounds up to the `n`-th are known. -/
def Rounds (body : S → S ⊕ R) (f : Nat → S) (n : Nat) : Prop :=
  ∀ i, i < n → body (f i) = .inl (f (i + 1))

theorem Rounds.shift (h : Rounds body f (n + 1)) : Rounds body (fun i => f (i + 1)) n :=
  fun i hi => h (i + 1) (Nat.succ_lt_succ hi)

/-- **The result comes one round behind those that go on.** -/
theorem runLoop_of_rounds (h : Rounds body f n) (hend : body (f n) = .inr r) :
    ∀ {fuel : Nat}, n < fuel → runLoop body fuel (f 0) = some r := by
  induction n generalizing f with
  | zero =>
    intro fuel hfuel
    obtain ⟨k, rfl⟩ := Nat.exists_eq_add_of_lt hfuel
    exact runLoop_inr hend
  | succ n ih =>
    intro fuel hfuel
    obtain ⟨k, rfl⟩ := Nat.exists_eq_add_of_lt hfuel
    rw [runLoop_inl (h 0 (Nat.succ_pos n))]
    exact ih h.shift hend (by omega)

/-- **A loop all of whose rounds go on never ends.** -/
theorem not_ends_of_rounds (h : ∀ n, Rounds body f n) : ¬ Ends body (f 0) r := by
  rintro ⟨fuel, hrun⟩
  induction fuel generalizing f with
  | zero => exact absurd hrun nofun
  | succ fuel ih =>
    rw [runLoop_inl (h 1 0 Nat.zero_lt_one)] at hrun
    exact ih (fun n => (h (n + 1)).shift) hrun

/-- More rounds do not change a result. -/
theorem runLoop_mono : ∀ {fuel fuel' : Nat} {s : S}, runLoop body fuel s = some r →
    fuel ≤ fuel' → runLoop body fuel' s = some r
  | 0, _, _, h, _ => absurd h nofun
  | fuel + 1, fuel', s, h, hle => by
    obtain ⟨k, rfl⟩ := Nat.exists_eq_add_of_lt hle
    cases hbody : body s with
    | inl s' =>
      rw [runLoop_inl hbody] at h ⊢
      exact runLoop_mono h (Nat.le_add_right _ _)
    | inr r' =>
      rw [runLoop_inr hbody] at h ⊢
      exact h

/-- A loop that ends has one result. -/
theorem runLoop_unique : ∀ {fuel fuel' : Nat} {s : S}, runLoop body fuel s = some r →
    runLoop body fuel' s = some r' → r = r'
  | 0, _, _, h, _ => absurd h nofun
  | _ + 1, 0, _, _, h' => absurd h' nofun
  | fuel + 1, fuel' + 1, s, h, h' => by
    cases hbody : body s with
    | inl s' =>
      rw [runLoop_inl hbody] at h h'
      exact runLoop_unique h h'
    | inr r'' =>
      rw [runLoop_inr hbody] at h h'
      exact (Option.some.inj h).symm.trans (Option.some.inj h')

theorem Ends.unique (h : Ends body s r) (h' : Ends body s r') : r = r' := by
  obtain ⟨fuel, h⟩ := h
  obtain ⟨fuel', h'⟩ := h'
  exact runLoop_unique h h'

theorem ends_of_inr (h : body s = .inr r) : Ends body s r := ⟨1, runLoop_inr h⟩

theorem ends_of_inl {s' : S} (h : body s = .inl s') (hends : Ends body s' r) : Ends body s r := by
  obtain ⟨fuel, hrun⟩ := hends
  exact ⟨fuel + 1, (runLoop_inl h).trans hrun⟩

/-- A round that goes on changes nothing about the end. -/
theorem ends_inl_iff {s' : S} (h : body s = .inl s') : Ends body s r ↔ Ends body s' r := by
  constructor
  · rintro ⟨fuel, hrun⟩
    cases fuel with
    | zero => exact absurd hrun nofun
    | succ fuel =>
      rw [runLoop_inl h] at hrun
      exact ⟨fuel, hrun⟩
  · exact ends_of_inl h

theorem isSome_runLoop_iff : (∃ fuel, (runLoop body fuel s).isSome = true) ↔ ∃ r, Ends body s r := by
  simp only [Ends, Option.isSome_iff_exists]
  exact exists_comm

/-! ## Loops that walk -/

section Walk

variable {α : Type} {view : S → α} {next : α → α} {stop : α → Prop} {a : α}

/-- What a round looks at decides whether it is the last one, and what the next one looks at. -/
structure Walks (body : S → S ⊕ R) (view : S → α) (next : α → α) (stop : α → Prop) : Prop where
  last : ∀ s, stop (view s) → ∃ r, body s = .inr r
  goes : ∀ s, ¬stop (view s) → ∃ s', body s = .inl s' ∧ view s' = next (view s)

/-- The walk comes back to a place where it has been, before it stops. -/
def Returns (next : α → α) (stop : α → Prop) (a : α) : Prop :=
  ∃ i j, i < j ∧ next^[i] a = next^[j] a ∧ ∀ k < j, ¬stop (next^[k] a)

/-- A loop that walks ends where the walk stops. -/
theorem Walks.ends_iff_stops (h : Walks body view next stop) :
    (∃ r, Ends body s r) ↔ ∃ n, stop (next^[n] (view s)) := by
  constructor
  · rintro ⟨r, fuel, hrun⟩
    induction fuel generalizing s with
    | zero => exact absurd hrun nofun
    | succ fuel ih =>
      by_cases hstop : stop (view s)
      · exact ⟨0, hstop⟩
      · obtain ⟨s', hbody, hview⟩ := h.goes s hstop
        rw [runLoop, hbody] at hrun
        obtain ⟨n, hn⟩ := ih hrun
        rw [hview] at hn
        exact ⟨n + 1, hn⟩
  · rintro ⟨n, hn⟩
    induction n generalizing s with
    | zero =>
      obtain ⟨r, hbody⟩ := h.last s hn
      exact ⟨r, ends_of_inr hbody⟩
    | succ n ih =>
      by_cases hstop : stop (view s)
      · obtain ⟨r, hbody⟩ := h.last s hstop
        exact ⟨r, ends_of_inr hbody⟩
      · obtain ⟨s', hbody, hview⟩ := h.goes s hstop
        rw [Function.iterate_succ_apply, ← hview] at hn
        obtain ⟨r, hr⟩ := ih hn
        exact ⟨r, ends_of_inl hbody hr⟩

/-- A walk that comes back goes round for ever. -/
theorem Returns.never (h : Returns next stop a) (n : Nat) : ¬stop (next^[n] a) := by
  obtain ⟨i, j, hij, hback, hgo⟩ := h
  induction n using Nat.strong_induction_on with
  | _ n ih =>
    rcases Nat.lt_or_ge n j with hn | hn
    · exact hgo n hn
    · obtain ⟨k, rfl⟩ := Nat.exists_eq_add_of_le' hn
      rw [Function.iterate_add_apply, ← hback, ← Function.iterate_add_apply]
      exact ih (k + i) (Nat.add_lt_add_left hij k)

/-- A walk that goes up, as long as it has not stopped, does not come back. -/
theorem not_returns_of_lt {β : Type} [Preorder β] (rank : α → β)
    (h : ∀ n, (∀ k ≤ n, ¬stop (next^[k] a)) → rank (next^[n] a) < rank (next^[n + 1] a)) :
    ¬Returns next stop a := by
  intro hreturns
  have hup : StrictMono fun n => rank (next^[n] a) :=
    strictMono_nat_of_lt_succ fun n => h n fun k _ => hreturns.never k
  obtain ⟨i, j, hij, hback, -⟩ := hreturns
  exact (hup hij).ne (congrArg rank hback)

/-- **Among finitely many places a walk stops exactly when it does not come back.** -/
theorem stops_iff_not_returns [Finite α] : (∃ n, stop (next^[n] a)) ↔ ¬Returns next stop a := by
  constructor
  · rintro ⟨n, hn⟩ hreturns
    exact hreturns.never n hn
  · intro hreturns
    by_contra hnever
    rw [not_exists] at hnever
    obtain ⟨i, j, hij, hback⟩ := Finite.exists_ne_map_eq_of_infinite fun n => next^[n] a
    rcases Nat.lt_or_gt_of_ne hij with hlt | hgt
    · exact hreturns ⟨i, j, hlt, hback, fun k _ => hnever k⟩
    · exact hreturns ⟨j, i, hgt, hback.symm, fun k _ => hnever k⟩

/-- **Among finitely many places a loop that walks ends exactly when it does not come back.** -/
theorem Walks.ends_iff [Finite α] (h : Walks body view next stop) :
    (∃ r, Ends body s r) ↔ ¬Returns next stop (view s) :=
  h.ends_iff_stops.trans stops_iff_not_returns

end Walk

end AndixOs
