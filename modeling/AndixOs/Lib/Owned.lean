/-
# Logs of blocks

A program allocates blocks, uses them and frees them.  A log says in which order.  `track` reads it with
the blocks that are allocated, and stops at the first event that is wrong: a block that is freed or used
and is not allocated.  A log is `Balanced` if it has no such event and leaves nothing allocated.

* `track_length`: what is left is what was allocated and not freed (`surplus`).

Nothing here names the kernel.
-/
import Mathlib.Data.List.Basic
import Mathlib.Tactic.Ring

namespace AndixOs

/-! ## 1. Events -/

inductive BlockEvent (β : Type) where
  | alloc (b : β)
  | free (b : β)
  | access (b : β)
  deriving DecidableEq

section Surplus

variable {β : Type} {b : β} {log log' : List (BlockEvent β)}

/-- Allocations less frees. -/
def surplus : List (BlockEvent β) → Int
  | [] => 0
  | .alloc _ :: log => surplus log + 1
  | .free _ :: log => surplus log - 1
  | .access _ :: log => surplus log

@[simp] theorem surplus_nil : surplus ([] : List (BlockEvent β)) = 0 := rfl

@[simp] theorem surplus_alloc : surplus (.alloc b :: log) = surplus log + 1 := rfl

@[simp] theorem surplus_free : surplus (.free b :: log) = surplus log - 1 := rfl

@[simp] theorem surplus_access : surplus (.access b :: log) = surplus log := rfl

@[simp] theorem surplus_append : ∀ log : List (BlockEvent β),
    surplus (log ++ log') = surplus log + surplus log'
  | [] => by simp
  | .alloc b :: log => by
    simp [surplus_append log]
    ring
  | .free b :: log => by
    simp [surplus_append log]
    ring
  | .access b :: log => by simp [surplus_append log]

end Surplus

/-! ## 2. Reading a log -/

section Track

variable {β : Type} [DecidableEq β] {b : β} {live live' : List β} {log log' : List (BlockEvent β)}

/-- The blocks that are allocated after a log, if nothing in it is wrong. -/
def track : List β → List (BlockEvent β) → Option (List β)
  | live, [] => some live
  | live, .alloc b :: log => track (b :: live) log
  | live, .free b :: log => if b ∈ live then track (live.erase b) log else none
  | live, .access b :: log => if b ∈ live then track live log else none

/-- Every block is freed once, and not used before or after. -/
def Balanced (log : List (BlockEvent β)) : Prop := track [] log = some []

@[simp] theorem track_nil : track live [] = some live := rfl

@[simp] theorem track_alloc : track live (.alloc b :: log) = track (b :: live) log := rfl

theorem track_free (h : b ∈ live) : track live (.free b :: log) = track (live.erase b) log :=
  if_pos h

theorem track_access (h : b ∈ live) : track live (.access b :: log) = track live log := if_pos h

theorem track_access_of_not_mem (h : b ∉ live) : track live (.access b :: log) = none := if_neg h

/-- What is left is what was allocated and not freed. -/
theorem track_length : ∀ {log : List (BlockEvent β)} {live : List β}, track live log = some live' →
    (live'.length : Int) = live.length + surplus log
  | [], live, h => by
    obtain rfl := Option.some.inj h
    simp
  | .alloc b :: log, live, h => by
    have ih := track_length (track_alloc.symm.trans h)
    rw [List.length_cons] at ih
    rw [surplus_alloc]
    omega
  | .free b :: log, live, h => by
    rw [track] at h
    split at h
    case isFalse => exact absurd h nofun
    case isTrue hb =>
    have ih := track_length h
    have hlen := List.length_erase_add_one hb
    rw [surplus_free]
    omega
  | .access b :: log, live, h => by
    rw [track] at h
    split at h
    case isFalse => exact absurd h nofun
    case isTrue hb =>
    rw [surplus_access]
    exact track_length h

/-- A balanced log frees as often as it allocates. -/
theorem Balanced.surplus_eq (h : Balanced log) : surplus log = 0 := by
  have hlen := track_length h
  rw [List.length_nil] at hlen
  omega

end Track

end AndixOs
