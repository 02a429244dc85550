/-
# Runs of a transition system

A system takes labelled steps.  A claim about every run is proved from two facts: the invariant
holds at the start, and one step keeps it.  This file packages the two inductions once, for a
step relation (`Run`, `Run.invariant`) and for a step function (`exec`, `exec_invariant`), and
the side condition that a run's steps all satisfy (`Guarded`, `EveryStep`).

Nothing here names the kernel.
-/
import Mathlib.Data.List.Basic

namespace AndixOs

variable {S A : Type}

/-! ## 1. A step relation -/

/-- `Run step s as t`: the labels `as`, oldest first, lead from `s` to `t`. -/
inductive Run (step : S → A → S → Prop) : S → List A → S → Prop where
  | nil (s : S) : Run step s [] s
  | cons {s t u : S} {a : A} {as : List A} : step s a t → Run step t as u → Run step s (a :: as) u

/-- The steps that meet a condition on the state before them. -/
def Guarded (ok : S → A → Prop) (step : S → A → S → Prop) : S → A → S → Prop :=
  fun s a t => ok s a ∧ step s a t

/-- **The invariant rule.**  What one step keeps, a run keeps. -/
theorem Run.invariant {step : S → A → S → Prop} {Inv : S → Prop}
    (hstep : ∀ s a t, Inv s → step s a t → Inv t) {s t : S} {as : List A}
    (hrun : Run step s as t) (hs : Inv s) : Inv t := by
  induction hrun with
  | nil _ => exact hs
  | cons h _ ih => exact ih (hstep _ _ _ hs h)

/-- A run of guarded steps is a run. -/
theorem Run.of_guarded {ok : S → A → Prop} {step : S → A → S → Prop} {s t : S} {as : List A}
    (hrun : Run (Guarded ok step) s as t) : Run step s as t := by
  induction hrun with
  | nil s => exact Run.nil s
  | cons h _ ih => exact Run.cons h.2 ih

/-- Two relations with the same steps have the same runs. -/
theorem Run.congr {step step' : S → A → S → Prop} (h : ∀ s a t, step s a t ↔ step' s a t)
    {s t : S} {as : List A} : Run step s as t ↔ Run step' s as t := by
  have hsame : step = step' := by
    funext s a t
    exact propext (h s a t)
  rw [hsame]

/-- Where a step that meets the condition keeps the invariant and is good, and any other step is not,
the runs of good steps are the runs of steps that meet the condition. -/
theorem Run.decided_iff {ok : S → A → Prop} {step Good : S → A → S → Prop} (Inv : S → Prop)
    (hok : ∀ s a t, Inv s → step s a t → ok s a → Inv t ∧ Good s a t)
    (hbad : ∀ s a t, Inv s → step s a t → ¬ ok s a → ¬ Good s a t) {s t : S} {as : List A}
    (hs : Inv s) :
    Run (fun s a t => step s a t ∧ Good s a t) s as t ↔ Run (Guarded ok step) s as t := by
  constructor
  · intro hrun
    induction hrun with
    | nil s => exact Run.nil s
    | cons h _ ih =>
      have hcond := by_contra fun hn => hbad _ _ _ hs h.1 hn h.2
      exact Run.cons ⟨hcond, h.1⟩ (ih (hok _ _ _ hs h.1 hcond).1)
  · intro hrun
    induction hrun with
    | nil s => exact Run.nil s
    | cons h _ ih =>
      obtain ⟨hnext, hgood⟩ := hok _ _ _ hs h.2 h.1
      exact Run.cons ⟨h.2, hgood⟩ (ih hnext)

/-- Where a step that meets the condition keeps the invariant, and any other step breaks the
property, the runs through states with the property are the runs of steps that meet the
condition. -/
theorem Run.good_iff {ok : S → A → Prop} {step : S → A → S → Prop} {Inv Good : S → Prop}
    (hgood : ∀ s, Inv s → Good s)
    (hok : ∀ s a t, Inv s → step s a t → ok s a → Inv t)
    (hbad : ∀ s a t, Inv s → step s a t → ¬ ok s a → ¬ Good t) {s t : S} {as : List A}
    (hs : Inv s) :
    Run (fun s a t => step s a t ∧ Good t) s as t ↔ Run (Guarded ok step) s as t :=
  Run.decided_iff Inv (fun s a t h hstep ha => ⟨hok s a t h hstep ha, hgood t (hok s a t h hstep ha)⟩) hbad hs

/-- Where a step keeps the property exactly when it meets a condition, the runs through states
with the property are the runs of steps that meet the condition.  `Inv` is what every step keeps. -/
theorem Run.keeps_iff {ok : S → A → Prop} {step : S → A → S → Prop} {Inv Good : S → Prop}
    (hkeep : ∀ s a t, Inv s → step s a t → Inv t)
    (hiff : ∀ s a t, Inv s → Good s → step s a t → (Good t ↔ ok s a)) {s t : S} {as : List A}
    (hs : Inv s) (hg : Good s) :
    Run (fun s a t => step s a t ∧ Good t) s as t ↔ Run (Guarded ok step) s as t := by
  have hgood : ∀ s, Inv s ∧ Good s → Good s := fun _ h => h.2
  have hok : ∀ s a t, Inv s ∧ Good s → step s a t → ok s a → Inv t ∧ Good t :=
    fun s a t h hstep ha => ⟨hkeep s a t h.1 hstep, (hiff s a t h.1 h.2 hstep).mpr ha⟩
  have hbad : ∀ s a t, Inv s ∧ Good s → step s a t → ¬ ok s a → ¬ Good t :=
    fun s a t h hstep ha hgt => ha ((hiff s a t h.1 h.2 hstep).mp hgt)
  exact Run.good_iff hgood hok hbad ⟨hs, hg⟩

/-! ## 2. A step function -/

/-- The state after the labels `as`, oldest first. -/
def exec (f : S → A → S) : S → List A → S
  | s, [] => s
  | s, a :: as => exec f (f s a) as

/-- Every label is taken in a state that meets the condition. -/
def EveryStep (f : S → A → S) (ok : S → A → Prop) : S → List A → Prop
  | _, [] => True
  | s, a :: as => ok s a ∧ EveryStep f ok (f s a) as

/-- The invariant rule for a step function, with a condition on the steps. -/
theorem exec_invariant {f : S → A → S} {ok : S → A → Prop} {Inv : S → Prop}
    (hstep : ∀ s a, Inv s → ok s a → Inv (f s a)) :
    ∀ (as : List A) (s : S), EveryStep f ok s as → Inv s → Inv (exec f s as)
  | [], _, _, hs => hs
  | _ :: as, _, h, hs => exec_invariant hstep as _ h.2 (hstep _ _ hs h.1)

/-- What every step keeps, a run keeps, whatever its labels. -/
theorem exec_keep {f : S → A → S} {Mark : S → Prop} (hkeep : ∀ s a, Mark s → Mark (f s a)) :
    ∀ (as : List A) (s : S), Mark s → Mark (exec f s as)
  | [], _, hs => hs
  | a :: as, s, hs => exec_keep hkeep as (f s a) (hkeep s a hs)

/-- The rule for a row of labels, of which each step may use that its label is in the row. -/
theorem exec_members {f : S → A → S} {Inv : S → Prop} :
    ∀ (as : List A) (s : S), (∀ s, ∀ a ∈ as, Inv s → Inv (f s a)) → Inv s → Inv (exec f s as)
  | [], _, _, hs => hs
  | a :: as, s, h, hs =>
    exec_members as (f s a) (fun s b hb => h s b (List.mem_cons_of_mem a hb)) (h s a List.mem_cons_self hs)

/-- A run in two parts. -/
theorem exec_append (f : S → A → S) : ∀ (as bs : List A) (s : S),
    exec f s (as ++ bs) = exec f (exec f s as) bs
  | [], _, _ => rfl
  | a :: as, bs, s => exec_append f as bs (f s a)

/-- **A row that has the label which gets it done.**  Until then every step keeps what that step needs, and
afterwards it stays done. -/
theorem exec_reaches {f : S → A → S} {Ready Done : S → Prop} {as : List A} {a : A} (ha : a ∈ as)
    (hkeep : ∀ s, ∀ b ∈ as, Ready s → Ready (f s b)) (hat : ∀ s, Ready s → Done (f s a))
    (hstay : ∀ s, ∀ b ∈ as, Done s → Done (f s b)) {s : S} (hs : Ready s) : Done (exec f s as) := by
  obtain ⟨before, after, rfl⟩ := List.append_of_mem ha
  rw [exec_append]
  refine exec_members after _ (fun s b hb => hstay s b (by simp [hb])) (hat _ ?_)
  exact exec_members before _ (fun s b hb => hkeep s b (by simp [hb])) hs

/-- A step that does not meet the condition leaves a mark, and the mark stays: if the other
steps keep the invariant, a run with such a step ends marked. -/
theorem exec_mark {f : S → A → S} {ok : S → A → Prop} {Inv Mark : S → Prop}
    (hstep : ∀ s a, Inv s → ok s a → Inv (f s a)) (hbad : ∀ s a, Inv s → ¬ ok s a → Mark (f s a))
    (hkeep : ∀ s a, Mark s → Mark (f s a)) :
    ∀ (as : List A) (s : S), ¬ EveryStep f ok s as → Inv s → Mark (exec f s as)
  | [], _, h, _ => absurd trivial h
  | a :: as, s, h, hs => by
    by_cases ha : ok s a
    · exact exec_mark hstep hbad hkeep as _ (fun hr => h ⟨ha, hr⟩) (hstep s a hs ha)
    · exact exec_keep hkeep as (f s a) (hbad s a hs ha)

/-! ## 3. A step function that can refuse -/

/-- The steps of a partial step function. -/
def stepOf (f : S → A → Option S) : S → A → S → Prop := fun s a t => f s a = some t

/-- The state after the labels `as`, if every one is taken in a state that meets the condition and
none is refused. -/
def execOk (f : S → A → Option S) (ok : S → A → Bool) : S → List A → Option S
  | s, [] => some s
  | s, a :: as =>
    match ok s a, f s a with
    | true, some t => execOk f ok t as
    | _, _ => none

/-- What `execOk` computes is a run. -/
theorem run_of_execOk {f : S → A → Option S} {ok : S → A → Bool} {t : S} :
    ∀ {as : List A} {s : S}, execOk f ok s as = some t →
      Run (Guarded (fun s a => ok s a = true) (stepOf f)) s as t
  | [], s, h => by
    obtain rfl := Option.some.inj h
    exact Run.nil s
  | a :: as, s, h => by
    rw [execOk] at h
    split at h
    · rename_i u hok hf
      exact Run.cons ⟨hok, hf⟩ (run_of_execOk h)
    · exact absurd h (by simp)

/-- A run that is computed, to a state that is tested. -/
theorem exists_run_of_execOk {f : S → A → Option S} {ok : S → A → Bool} {P : S → Bool} {s : S}
    {as : List A} (h : (execOk f ok s as).any P = true) :
    ∃ t, Run (Guarded (fun s a => ok s a = true) (stepOf f)) s as t ∧ P t = true := by
  obtain ⟨t, ht, hP⟩ := (Option.any_eq_true _ _).mp h
  exact ⟨t, run_of_execOk ht, hP⟩

end AndixOs
