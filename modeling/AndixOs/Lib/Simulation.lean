/-
# Machines that answer

A machine takes a label, goes to another state and answers.  One machine does what another one says if
a relation between their states is kept by each step and the answers agree, for the labels that the second
one allows in its state.  Then whole runs agree (`Simulates.run`).

Nothing here names the kernel.
-/
import AndixOs.Lib.Run

namespace AndixOs

variable {S T A B : Type} {f : S → A → S × B} {g : T → A → T × B} {ok : T → A → Prop} {R : S → T → Prop}

/-- The answers of a run, the oldest first. -/
def answers (f : S → A → S × B) : S → List A → List B
  | _, [] => []
  | s, a :: as => (f s a).2 :: answers f (f s a).1 as

/-- The state after a run. -/
def after (f : S → A → S × B) : S → List A → S := exec fun s a => (f s a).1

/-- The labels of a run are allowed, each in its state. -/
def Allows (g : T → A → T × B) (ok : T → A → Prop) : T → List A → Prop := EveryStep (fun t a => (g t a).1) ok

/-- From related states both machines answer the same, and come to related states. -/
def Simulates (f : S → A → S × B) (g : T → A → T × B) (ok : T → A → Prop) (R : S → T → Prop) : Prop :=
  ∀ s t a, R s t → ok t a → (f s a).2 = (g t a).2 ∧ R (f s a).1 (g t a).1

/-- **The rule for runs.** -/
theorem Simulates.run (h : Simulates f g ok R) : ∀ (as : List A) {s : S} {t : T}, R s t → Allows g ok t as →
    answers f s as = answers g t as ∧ R (after f s as) (after g t as)
  | [], _, _, hr, _ => ⟨rfl, hr⟩
  | a :: as, s, t, hr, hok => by
    obtain ⟨hanswer, hnext⟩ := h s t a hr hok.1
    obtain ⟨hrest, hlast⟩ := h.run as hnext hok.2
    exact ⟨by rw [answers, answers, hanswer, hrest], hlast⟩

end AndixOs
