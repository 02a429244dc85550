/-
# Searching for the first run of free slots

Slots are numbered, some are free.  A search looks at them in order and counts how many free ones
it has just seen in a row; when the count reaches the wanted length it stops.  `Scanning` is what
such a search knows, with one rule for each kind of slot, and `FirstRun` is what it finds.
`Seeking` and `FirstRunFrom` are the same for a search whose runs may start only at some slots.  A
run that is taken takes its length off the number of free slots (`freeCount_taken`).

Nothing here names the kernel.
-/
import Mathlib.Data.Nat.Find
import Mathlib.Order.Interval.Finset.Nat

namespace AndixOs

variable {free : Nat → Bool} {n m p k q : Nat}

/-! ## 1. Runs -/

/-- The slots `q … q + n - 1` are free. -/
def FreeRun (free : Nat → Bool) (q n : Nat) : Prop := ∀ r, q ≤ r → r < q + n → free r = true

/-- The first run of `n` free slots among the first `m` starts at `q`. -/
structure FirstRun (free : Nat → Bool) (n m q : Nat) : Prop where
  inside : q + n ≤ m
  run : FreeRun free q n
  first : ∀ q', q' < q → ¬ FreeRun free q' n

/-- There is at most one first run. -/
theorem FirstRun.unique {q q' : Nat} (h : FirstRun free n m q) (h' : FirstRun free n m q') :
    q = q' := by
  rcases Nat.lt_trichotomy q q' with hlt | heq | hgt
  · exact absurd h.run (h'.first q hlt)
  · exact heq
  · exact absurd h'.run (h.first q' hgt)

/-- Where there is a run, there is a first one. -/
theorem exists_firstRun (hin : q + n ≤ m) (hrun : FreeRun free q n) :
    ∃ q', FirstRun free n m q' := by
  classical
  have hex : ∃ q, FreeRun free q n := ⟨q, hrun⟩
  refine ⟨Nat.find hex, ?_, Nat.find_spec hex, fun q' hlt => Nat.find_min hex hlt⟩
  have hle := Nat.find_min' hex hrun
  omega

/-- A run loses its slot at the end. -/
theorem FreeRun.shorten (h : FreeRun free q n) (hm : m ≤ n) : FreeRun free q m :=
  fun r h1 h2 => h r h1 (by omega)

/-! ## 2. The search -/

/-- What a search for `n` slots knows before it looks at slot `p`: the last `k` slots are free, the
one before them is not, and no run ends before `p`. -/
structure Scanning (free : Nat → Bool) (n p k : Nat) : Prop where
  count : k ≤ p
  recent : FreeRun free (p - k) k
  broken : k < p → free (p - k - 1) = false
  none_yet : ∀ q, q + n ≤ p → ¬ FreeRun free q n

theorem Scanning.start (hn : 0 < n) : Scanning free n 0 0 where
  count := le_refl _
  recent := fun r _ h => absurd h (by omega)
  broken := fun h => absurd h (by omega)
  none_yet := fun q h => absurd h (by omega)

/-- A slot in use starts the count again. -/
theorem Scanning.busy (h : Scanning free n p k) (hn : 0 < n) (hp : free p = false) :
    Scanning free n (p + 1) 0 where
  count := by omega
  recent := fun r h1 h2 => absurd h1 (by omega)
  broken := fun _ => hp
  none_yet := by
    intro q hq hrun
    rcases Nat.lt_or_ge p (q + n) with hlt | hge
    · have := hrun p (by omega) hlt
      rw [hp] at this
      exact Bool.false_ne_true this
    · exact h.none_yet q hge hrun

/-- A free slot makes the run longer. -/
theorem Scanning.recent_succ (h : Scanning free n p k) (hp : free p = true) :
    FreeRun free (p - k) (k + 1) := by
  intro r h1 h2
  rcases Nat.lt_or_ge r p with hlt | hge
  · exact h.recent r h1 (by have := h.count; omega)
  · have hr : r = p := by have := h.count; omega
    rw [hr]
    exact hp

/-- A free slot that does not complete the run. -/
theorem Scanning.longer (h : Scanning free n p k) (hp : free p = true) (hk : k + 1 < n) :
    Scanning free n (p + 1) (k + 1) where
  count := by have := h.count; omega
  recent := by
    have he : p + 1 - (k + 1) = p - k := by omega
    rw [he]
    exact h.recent_succ hp
  broken := by
    intro hlt
    have he : p + 1 - (k + 1) - 1 = p - k - 1 := by omega
    rw [he]
    exact h.broken (by omega)
  none_yet := by
    intro q hq hrun
    rcases Nat.lt_or_ge p (q + n) with hlt | hge
    · have hq' : k < p := by omega
      have := hrun (p - k - 1) (by omega) (by omega)
      rw [h.broken hq'] at this
      exact Bool.false_ne_true this
    · exact h.none_yet q hge hrun

/-- **The free slot that completes the run completes the first one.** -/
theorem Scanning.found (h : Scanning free n p k) (hp : free p = true) (hk : k + 1 = n)
    (hm : p < m) : FirstRun free n m (p - k) where
  inside := by have := h.count; omega
  run := by
    rw [← hk]
    exact h.recent_succ hp
  first := by
    intro q hq
    exact h.none_yet q (by have := h.count; omega)

/-- A search that reaches the end has found nothing. -/
theorem Scanning.exhausted (h : Scanning free n m k) : ∀ q, ¬ FirstRun free n m q :=
  fun q hf => h.none_yet q hf.inside hf.run

/-! ## 3. Computing it -/

/-- The first run from slot `p` on, among so many places. -/
def findRun (free : Nat → Bool) (n : Nat) : Nat → Nat → Option Nat
  | 0, _ => none
  | places + 1, p =>
    if (List.range n).all fun j => free (p + j) then some p else findRun free n places (p + 1)

theorem freeRun_iff_all : FreeRun free q n ↔ ((List.range n).all fun j => free (q + j)) = true := by
  rw [List.all_eq_true]
  constructor
  · intro h j hj
    exact h (q + j) (Nat.le_add_right _ _) (Nat.add_lt_add_left (List.mem_range.mp hj) q)
  · intro h r h1 h2
    have hr := h (r - q) (List.mem_range.mpr (by omega))
    rwa [Nat.add_sub_cancel' h1] at hr

/-- It is what a search finds. -/
theorem FirstRun.findRun (h : FirstRun free n m q) : findRun free n (m + 1 - n) 0 = some q := by
  have hfrom : ∀ places p, p ≤ q → q < p + places → AndixOs.findRun free n places p = some q := by
    intro places
    induction places with
    | zero =>
      intro p h1 h2
      omega
    | succ places ih =>
      intro p h1 h2
      unfold AndixOs.findRun
      obtain rfl | hlt := Nat.eq_or_lt_of_le h1
      · exact if_pos (freeRun_iff_all.mp h.run)
      · rw [if_neg fun hall => h.first p hlt (freeRun_iff_all.mpr hall)]
        exact ih (p + 1) hlt (by omega)
  have hin := h.inside
  exact hfrom _ 0 (Nat.zero_le q) (by omega)

/-! ## 4. Runs that start at some slots only -/

variable {ok : Nat → Bool}

/-- The first run of `n` free slots among the first `m` that starts at a slot which is `ok`. -/
structure FirstRunFrom (free ok : Nat → Bool) (n m q : Nat) : Prop where
  inside : q + n ≤ m
  start : ok q = true
  run : FreeRun free q n
  first : ∀ q', q' < q → ok q' = true → ¬ FreeRun free q' n

/-- There is at most one first run of them. -/
theorem FirstRunFrom.unique {q' : Nat} (h : FirstRunFrom free ok n m q)
    (h' : FirstRunFrom free ok n m q') : q = q' := by
  rcases Nat.lt_trichotomy q q' with hlt | heq | hgt
  · exact absurd h.run (h'.first q hlt h.start)
  · exact heq
  · exact absurd h'.run (h.first q' hgt h'.start)

/-- Where there is such a run, there is a first one. -/
theorem exists_firstRunFrom (hin : q + n ≤ m) (hok : ok q = true) (hrun : FreeRun free q n) :
    ∃ q', FirstRunFrom free ok n m q' := by
  classical
  have hex : ∃ q, ok q = true ∧ FreeRun free q n := ⟨q, hok, hrun⟩
  have hle := Nat.find_min' hex ⟨hok, hrun⟩
  refine ⟨Nat.find hex, by omega, (Nat.find_spec hex).1, (Nat.find_spec hex).2, ?_⟩
  intro q' hlt hok' hrun'
  exact Nat.find_min hex hlt ⟨hok', hrun'⟩

/-- What such a search knows before it looks at slot `p`: the last `k` slots are free and start at a
slot which is `ok`, every earlier start is cut off by a slot in use, and no run ends before `p`. -/
structure Seeking (free ok : Nat → Bool) (n p k : Nat) : Prop where
  count : k ≤ p
  recent : FreeRun free (p - k) k
  start : k ≠ 0 → ok (p - k) = true
  blocked : ∀ q, ok q = true → q < p - k → ∃ r, q ≤ r ∧ r < p ∧ free r = false
  none_yet : ∀ q, ok q = true → q + n ≤ p → ¬ FreeRun free q n

/-- A start that is cut off before `p` starts no run up to `p`. -/
theorem Seeking.not_run (h : Seeking free ok n p k) (hok : ok q = true) (hlt : q < p - k)
    (hend : p ≤ q + n) : ¬ FreeRun free q n := by
  intro hrun
  obtain ⟨r, h1, h2, hr⟩ := h.blocked q hok hlt
  have hfree := hrun r h1 (by omega)
  rw [hr] at hfree
  exact Bool.false_ne_true hfree

/-- The count stays below the wanted length. -/
theorem Seeking.count_lt (h : Seeking free ok n p k) (hk : k ≠ 0) : k < n := by
  by_contra hge
  have hcount := h.count
  exact h.none_yet (p - k) (h.start hk) (by omega) (h.recent.shorten (by omega))

theorem Seeking.begin (hn : 0 < n) : Seeking free ok n 0 0 where
  count := le_refl _
  recent := fun r _ hr => absurd hr (by omega)
  start := fun h => absurd rfl h
  blocked := fun q _ hq => absurd hq (by omega)
  none_yet := fun q _ hq => absurd hq (by omega)

/-- A slot in use cuts every start off. -/
theorem Seeking.busy (h : Seeking free ok n p k) (hn : 0 < n) (hp : free p = false) :
    Seeking free ok n (p + 1) 0 where
  count := by omega
  recent := fun r h1 h2 => absurd h1 (by omega)
  start := fun h0 => absurd rfl h0
  blocked := fun q _ hq => ⟨p, by omega, by omega, hp⟩
  none_yet := by
    intro q hok hq hrun
    rcases Nat.lt_or_ge p (q + n) with hlt | hge
    · have hfree := hrun p (by omega) hlt
      rw [hp] at hfree
      exact Bool.false_ne_true hfree
    · exact h.none_yet q hok hge hrun

/-- A free slot where no run may start. -/
theorem Seeking.skip (h : Seeking free ok n p 0) (hn : 0 < n) (hp : ok p = false) :
    Seeking free ok n (p + 1) 0 where
  count := by omega
  recent := fun r h1 h2 => absurd h1 (by omega)
  start := fun h0 => absurd rfl h0
  blocked := by
    intro q hok hq
    have hne : q ≠ p := by
      rintro rfl
      rw [hp] at hok
      exact Bool.false_ne_true hok
    obtain ⟨r, h1, h2, hr⟩ := h.blocked q hok (by omega)
    exact ⟨r, h1, by omega, hr⟩
  none_yet := by
    intro q hok hq hrun
    have hne : q ≠ p := by
      rintro rfl
      rw [hp] at hok
      exact Bool.false_ne_true hok
    rcases Nat.lt_or_ge p (q + n) with hlt | hge
    · exact h.not_run hok (by omega) (by omega) hrun
    · exact h.none_yet q hok hge hrun

/-- A free slot that opens a run, or makes it longer, and does not complete it. -/
theorem Seeking.longer (h : Seeking free ok n p k) (hp : free p = true)
    (hok : k = 0 → ok p = true) (hk : k + 1 < n) : Seeking free ok n (p + 1) (k + 1) := by
  have hcount := h.count
  have hstart : p + 1 - (k + 1) = p - k := by omega
  constructor
  · omega
  · rw [hstart]
    intro r h1 h2
    rcases Nat.lt_or_ge r p with hlt | hge
    · exact h.recent r h1 (by omega)
    · obtain rfl : r = p := by omega
      exact hp
  · intro _
    rw [hstart]
    rcases Nat.eq_zero_or_pos k with rfl | hpos
    · exact hok rfl
    · exact h.start (Nat.ne_of_gt hpos)
  · intro q hokq hq
    obtain ⟨r, h1, h2, hr⟩ := h.blocked q hokq (by omega)
    exact ⟨r, h1, by omega, hr⟩
  · intro q hokq hq hrun
    rcases Nat.lt_or_ge p (q + n) with hlt | hge
    · exact h.not_run hokq (by omega) (by omega) hrun
    · exact h.none_yet q hokq hge hrun

/-- **The free slot that completes a run completes the first one.** -/
theorem Seeking.found (h : Seeking free ok n p k) (hp : free p = true) (hk0 : k ≠ 0)
    (hk : k + 1 = n) (hm : p < m) : FirstRunFrom free ok n m (p - k) where
  inside := by have := h.count; omega
  start := h.start hk0
  run := by
    intro r h1 h2
    have hcount := h.count
    rcases Nat.lt_or_ge r p with hlt | hge
    · exact h.recent r h1 (by omega)
    · obtain rfl : r = p := by omega
      exact hp
  first := by
    intro q hq hok
    exact h.none_yet q hok (by have := h.count; omega)

/-- A search that reaches the end has found nothing. -/
theorem Seeking.exhausted (h : Seeking free ok n m k) : ∀ q, ¬ FirstRunFrom free ok n m q :=
  fun q hf => h.none_yet q hf.start hf.inside hf.run

/-! ## 5. Counting -/

/-- The number of free slots among the first `m`. -/
def freeCount (free : Nat → Bool) (m : Nat) : Nat :=
  ((Finset.range m).filter fun p => free p = true).card

theorem freeCount_eq_zero : freeCount free m = 0 ↔ ∀ p < m, free p = false := by
  simp [freeCount, Finset.card_eq_zero, Finset.filter_eq_empty_iff]

/-- **Taking a run of `n` slots** takes `n` off the count. -/
theorem freeCount_taken {free' : Nat → Bool} (hin : q + n ≤ m) (hrun : FreeRun free q n)
    (hmarked : ∀ p, free' p = (free p && !decide (q ≤ p ∧ p < q + n))) :
    freeCount free' m + n = freeCount free m := by
  have hsplit : (Finset.range m).filter (fun p => free p = true) =
      (Finset.range m).filter (fun p => free' p = true) ∪ Finset.Ico q (q + n) := by
    ext p
    simp only [Finset.mem_filter, Finset.mem_range, Finset.mem_union, Finset.mem_Ico, hmarked,
      Bool.and_eq_true, Bool.not_eq_true', decide_eq_false_iff_not]
    constructor
    · rintro ⟨hp, hfree⟩
      by_cases h : q ≤ p ∧ p < q + n
      · exact Or.inr h
      · exact Or.inl ⟨hp, hfree, h⟩
    · rintro (⟨hp, hfree, -⟩ | ⟨h1, h2⟩)
      · exact ⟨hp, hfree⟩
      · exact ⟨by omega, hrun p h1 h2⟩
  have hdisjoint : Disjoint ((Finset.range m).filter fun p => free' p = true)
      (Finset.Ico q (q + n)) := by
    refine Finset.disjoint_left.mpr fun p hp hin' => ?_
    have hout := (Finset.mem_filter.mp hp).2
    rw [hmarked, decide_eq_true (Finset.mem_Ico.mp hin')] at hout
    simp at hout
  unfold freeCount
  rw [hsplit, Finset.card_union_of_disjoint hdisjoint, Nat.card_Ico, Nat.add_sub_cancel_left]

end AndixOs
