/-
# Calls that take a mutex

Threads call functions that work on what they share under a mutex.  A call may return before it asks for
the mutex; otherwise it waits for it, works, and returns.  What it does says whether it gives the mutex
back.  A call that does not leaves a mutex that belongs to nobody, and from then on every call that
needs it waits.

* `held_iff`: a step keeps every mutex in the hands of a call exactly when it gives back what it has;
* `Held.enter`: then a call that waits gets its turn.

Nothing here names the kernel.
-/
import AndixOs.Lib.Run
import Mathlib.Logic.Function.Basic

namespace AndixOs

variable {ι κ A E S : Type}

/-! ## 1. Threads and mutexes -/

/-- Where a thread is: in no call, in one that waits for its mutex, or in one that has it. -/
inductive Place (A : Type) where
  | out
  | waiting (a : A)
  | inside (a : A)

/-- Who has which mutex, where the threads are, and what they share. -/
structure LockState (ι κ A S : Type) where
  owner : κ → Option ι
  place : ι → Place A
  shared : S

/-- The functions: the mutex of a call, whether it goes for it at all, and what it does when it has it,
with the shared state after that and whether the mutex is given back.  `E` is what a call meets on its
way. -/
structure LockedCalls (κ A E S : Type) where
  lockOf : A → κ
  enters : A → S → Bool
  body : A → E → S → Option (S × Bool)

inductive LockLabel (ι A E : Type) where
  | call (i : ι) (a : A)
  | take (i : ι)
  | ret (i : ι) (e : E)

/-- No thread is in a call. -/
def LockState.start (shared : S) : LockState ι κ A S := ⟨fun _ => none, fun _ => .out, shared⟩

/-- The steps. -/
inductive LockedCalls.Step [DecidableEq ι] [DecidableEq κ] (f : LockedCalls κ A E S) :
    LockState ι κ A S → LockLabel ι A E → LockState ι κ A S → Prop where
  | skip {s i a} : s.place i = .out → f.enters a s.shared = false → Step f s (.call i a) s
  | call {s i a} : s.place i = .out → f.enters a s.shared = true →
      Step f s (.call i a) { s with place := Function.update s.place i (.waiting a) }
  | take {s i a} : s.place i = .waiting a → s.owner (f.lockOf a) = none →
      Step f s (.take i) { s with
        owner := Function.update s.owner (f.lockOf a) (some i)
        place := Function.update s.place i (.inside a) }
  | ret {s i a e shared released} : s.place i = .inside a →
      f.body a e s.shared = some (shared, released) →
      Step f s (.ret i e)
        ⟨if released then Function.update s.owner (f.lockOf a) none else s.owner,
          Function.update s.place i .out, shared⟩

/-! ## 2. Who has a mutex -/

variable {f : LockedCalls κ A E S} {s t : LockState ι κ A S} {l : LockLabel ι A E} {i : ι} {a : A} {k : κ}

/-- A call that works has its mutex. -/
def Inside (f : LockedCalls κ A E S) (s : LockState ι κ A S) : Prop :=
  ∀ i a, s.place i = .inside a → s.owner (f.lockOf a) = some i

/-- A mutex that is taken is in the hands of a call that works. -/
def Held (f : LockedCalls κ A E S) (s : LockState ι κ A S) : Prop :=
  ∀ k i, s.owner k = some i → ∃ a, s.place i = .inside a ∧ f.lockOf a = k

/-- The step gives back the mutex it has, if it is the end of a call. -/
def Releases (f : LockedCalls κ A E S) (s : LockState ι κ A S) : LockLabel ι A E → Prop
  | .ret i e => ∀ a shared released, s.place i = .inside a →
      f.body a e s.shared = some (shared, released) → released = true
  | _ => True

theorem inside_start (f : LockedCalls κ A E S) (shared : S) :
    Inside f (.start shared : LockState ι κ A S) := fun _ _ => nofun

theorem held_start (f : LockedCalls κ A E S) (shared : S) :
    Held f (.start shared : LockState ι κ A S) := fun _ _ => nofun

/-- **While no call is under way, every mutex is free.** -/
theorem Held.free (h : Held f s) (hout : ∀ i, s.place i = .out) (k : κ) : s.owner k = none := by
  cases howner : s.owner k with
  | none => rfl
  | some i =>
    obtain ⟨a, hplace, -⟩ := h k i howner
    exact absurd (hplace.symm.trans (hout i)) nofun

variable [DecidableEq ι]

/-- Another place of a thread. -/
theorem place_of_update {g : ι → Place A} {p q : Place A} {j : ι}
    (h : Function.update g i p j = q) (hne : q ≠ p) : g j = q ∧ j ≠ i := by
  rcases eq_or_ne j i with rfl | hji
  · rw [Function.update_self] at h
    exact absurd h.symm hne
  · rw [Function.update_of_ne hji] at h
    exact ⟨h, hji⟩

variable [DecidableEq κ]

/-- **One step** keeps the mutexes with the calls that work. -/
theorem Inside.step (h : Inside f s) (hstep : f.Step s l t) : Inside f t := by
  cases hstep with
  | skip => exact h
  | call => exact fun j b hj => h j b (place_of_update hj nofun).1
  | @take i a hwait hfree =>
    intro j b hj
    rcases eq_or_ne j i with rfl | hji
    · obtain rfl := Place.inside.inj ((Function.update_self j _ s.place).symm.trans hj)
      exact Function.update_self ..
    · have hjb := h j b ((Function.update_of_ne hji _ _).symm.trans hj)
      have hlock : f.lockOf b ≠ f.lockOf a := by
        intro heq
        rw [heq, hfree] at hjb
        exact absurd hjb nofun
      exact (Function.update_of_ne hlock _ _).trans hjb
  | @ret i a e shared released hin hbody =>
    intro j b hj
    obtain ⟨hplace, hji⟩ := place_of_update hj nofun
    have hjb := h j b hplace
    cases released with
    | false => exact hjb
    | true =>
      have hlock : f.lockOf b ≠ f.lockOf a := by
        intro heq
        rw [heq, h i a hin] at hjb
        exact hji (Option.some.inj hjb).symm
      exact (Function.update_of_ne hlock _ _).trans hjb

/-- **One step keeps every mutex in the hands of a call** exactly when it gives back what it has. -/
theorem held_iff (hin : Inside f s) (h : Held f s) (hstep : f.Step s l t) :
    Held f t ↔ Releases f s l := by
  cases hstep with
  | skip => exact iff_of_true h trivial
  | @call i a hout henters =>
    refine iff_of_true (fun k j hj => ?_) trivial
    obtain ⟨b, hplace, hlock⟩ := h k j hj
    have hji : j ≠ i := by
      rintro rfl
      exact absurd (hplace.symm.trans hout) nofun
    exact ⟨b, (Function.update_of_ne hji _ _).trans hplace, hlock⟩
  | @take i a hwait hfree =>
    refine iff_of_true (fun k j hj => ?_) trivial
    rcases eq_or_ne k (f.lockOf a) with rfl | hk
    · obtain rfl := Option.some.inj ((Function.update_self _ _ s.owner).symm.trans hj)
      exact ⟨a, Function.update_self .., rfl⟩
    · obtain ⟨b, hplace, hlock⟩ := h k j ((Function.update_of_ne hk _ _).symm.trans hj)
      have hji : j ≠ i := by
        rintro rfl
        exact absurd (hplace.symm.trans hwait) nofun
      exact ⟨b, (Function.update_of_ne hji _ _).trans hplace, hlock⟩
  | @ret i a e shared released hinside hbody =>
    constructor
    · intro ht b shared' released' hb hbody'
      obtain rfl := Place.inside.inj (hinside.symm.trans hb)
      obtain ⟨-, rfl⟩ := Prod.mk.inj (Option.some.inj (hbody.symm.trans hbody'))
      by_contra hkept
      rw [Bool.not_eq_true] at hkept
      subst hkept
      -- the mutex is still there, and its owner has left
      obtain ⟨c, hplace, -⟩ := ht (f.lockOf a) i (hin i a hinside)
      exact absurd ((Function.update_self i _ s.place).symm.trans hplace) nofun
    · intro hrel k j hj
      obtain rfl := hrel a shared released hinside hbody
      rcases eq_or_ne k (f.lockOf a) with rfl | hk
      · exact absurd ((Function.update_self _ _ s.owner).symm.trans hj) nofun
      · obtain ⟨b, hplace, hlock⟩ := h k j ((Function.update_of_ne hk _ _).symm.trans hj)
        have hji : j ≠ i := by
          rintro rfl
          obtain rfl := Place.inside.inj (hplace.symm.trans hinside)
          exact hk hlock.symm
        exact ⟨b, (Function.update_of_ne hji _ _).trans hplace, hlock⟩

/-- **A call that waits gets its turn**, if a call that works can come to its end. -/
theorem Held.enter (h : Held f s) (hwait : s.place i = .waiting a)
    (hends : ∀ j b, s.place j = .inside b → ∃ e shared, f.body b e s.shared = some (shared, true)) :
    ∃ ls t, Run f.Step s ls t ∧ t.place i = .inside a := by
  cases howner : s.owner (f.lockOf a) with
  | none =>
    exact ⟨[.take i], _, .cons (.take hwait howner) (.nil _), Function.update_self ..⟩
  | some j =>
    obtain ⟨b, hplace, hlock⟩ := h _ j howner
    obtain ⟨e, shared, hbody⟩ := hends j b hplace
    have hij : i ≠ j := by
      rintro rfl
      exact absurd (hwait.symm.trans hplace) nofun
    have hret := LockedCalls.Step.ret hplace hbody
    refine ⟨[.ret j e, .take i], _, .cons hret (.cons (.take (a := a) ?_ ?_) (.nil _)),
      Function.update_self ..⟩
    · exact (Function.update_of_ne hij _ _).trans hwait
    · rw [if_pos rfl, hlock]
      exact Function.update_self ..

end AndixOs
