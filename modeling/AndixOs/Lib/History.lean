/-
# Histories and automata

A system writes down what happens.  An automaton reads the history: some events are its own, and
take it from one state to the next or to none, and it skips the others.  A history that it reads has
the order of events that the automaton allows, which `History.split` gives back at any place.

Nothing here names the kernel.
-/
import Mathlib.Data.List.Induction

namespace AndixOs

variable {E Q : Type} {own : E → Bool} {next : Q → E → Q → Prop} {start q : Q} {l es : List E} {e : E}

/-- The automaton reads the history, and ends in this state. -/
inductive History (own : E → Bool) (next : Q → E → Q → Prop) (start : Q) : List E → Q → Prop where
  | nil : History own next start [] start
  | read {l : List E} {q q' : Q} {e : E} (he : own e = true) (h : next q e q') :
    History own next start l q → History own next start (l ++ [e]) q'
  | skip {l : List E} {q : Q} {e : E} (he : own e = false) :
    History own next start l q → History own next start (l ++ [e]) q

/-- None of the events is the automaton's. -/
def Skipped (own : E → Bool) (l : List E) : Prop := ∀ e ∈ l, own e = false

/-- The last event of its own in the history. -/
def LastOwn (own : E → Bool) (l : List E) (e : E) : Prop :=
  ∃ l0 l1, l = l0 ++ e :: l1 ∧ Skipped own l1

theorem Skipped.snoc (h : Skipped own l) (he : own e = false) : Skipped own (l ++ [e]) :=
  List.forall_mem_append.mpr ⟨h, List.forall_mem_singleton.mpr he⟩

theorem LastOwn.new : LastOwn own (l ++ [e]) e := ⟨l, [], rfl, nofun⟩

theorem LastOwn.snoc {e' : E} (h : LastOwn own l e) (he : own e' = false) :
    LastOwn own (l ++ [e']) e := by
  obtain ⟨l0, l1, rfl, hl⟩ := h
  exact ⟨l0, l1 ++ [e'], by simp, hl.snoc he⟩

/-- A split of a history that grew: at the new event, or before it. -/
theorem split_snoc {l1 l2 : List E} {x : E} (h : l ++ [e] = l1 ++ x :: l2) :
    l = l1 ∧ e = x ∨ ∃ l3, l = l1 ++ x :: l3 := by
  induction l2 using List.reverseRecOn with
  | nil =>
    obtain ⟨rfl, heq⟩ := List.append_inj' h rfl
    exact Or.inl ⟨rfl, List.singleton_inj.mp heq⟩
  | append_singleton l3 y _ =>
    rw [← List.cons_append, ← List.append_assoc] at h
    exact Or.inr ⟨l3, (List.append_inj' h rfl).1⟩

/-- **At each event of its own** the automaton had read what is before it, and took a step. -/
theorem History.split (h : History own next start l q) (he : own e = true) :
    ∀ {l1 l2 : List E}, l = l1 ++ e :: l2 → ∃ q1 q2, History own next start l1 q1 ∧ next q1 e q2 := by
  induction h with
  | nil =>
    intro l1 l2 heq
    exact absurd heq (by simp)
  | @read l q q' e' _ hstep h ih =>
    intro l1 l2 heq
    obtain ⟨rfl, rfl⟩ | ⟨l3, hl⟩ := split_snoc heq
    · exact ⟨q, q', h, hstep⟩
    · exact ih hl
  | skip he' h ih =>
    intro l1 l2 heq
    obtain ⟨rfl, rfl⟩ | ⟨l3, hl⟩ := split_snoc heq
    · exact nomatch he.symm.trans he'
    · exact ih hl

/-- An event that no state has a step for does not happen. -/
theorem History.never (h : History own next start l q) (he : own e = true)
    (hno : ∀ q1 q2, ¬ next q1 e q2) : e ∉ l := by
  intro hmem
  obtain ⟨l1, l2, heq⟩ := List.append_of_mem hmem
  obtain ⟨q1, q2, -, hstep⟩ := h.split he heq
  exact hno q1 q2 hstep

/-- It skips any number of other events. -/
theorem History.append (h : History own next start l q) (hes : Skipped own es) :
    History own next start (l ++ es) q := by
  induction es using List.reverseRecOn with
  | nil => simpa using h
  | append_singleton es e ih =>
    rw [← List.append_assoc]
    exact .skip (hes e (by simp)) (ih fun x hx => hes x (List.mem_append_left _ hx))

end AndixOs
