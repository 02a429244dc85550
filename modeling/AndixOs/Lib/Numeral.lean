/-
# Numerals

The numeral of a number is the row of its digits, the highest one first, and a single 0 for zero.
`numeral_eq_of` says that no other row that stands for the number goes without a leading 0, so a
program that writes one digit after the other need only show the two things.

Nothing here names the kernel.
-/
import Mathlib.Data.Nat.Digits.Defs
import Mathlib.Data.Nat.Digits.Lemmas

namespace AndixOs

/-- The digits of `n` to the base `b`, the highest one first. -/
def numeral (b n : Nat) : List Nat := if n = 0 then [0] else (Nat.digits b n).reverse

variable {b n k : Nat} {l : List Nat}

theorem numeral_of_ne_zero (h : n ≠ 0) : numeral b n = (Nat.digits b n).reverse := if_neg h

/-- **The row without a leading 0** that stands for a number is its numeral. -/
theorem numeral_eq_of (hb : 1 < b) (hdigits : ∀ d ∈ l, d < b) (hhead : ∀ d ∈ l.head?, d ≠ 0)
    (hvalue : Nat.ofDigits b l.reverse = n) (hn : n ≠ 0) : numeral b n = l := by
  have hlast : ∀ h : l.reverse ≠ [], l.reverse.getLast h ≠ 0 := by
    intro h
    refine hhead _ ?_
    rw [List.getLast_reverse]
    exact List.head_mem_head? _
  rw [numeral_of_ne_zero hn, ← hvalue, Nat.digits_ofDigits b hb _ _ hlast, List.reverse_reverse]
  intro d hd
  exact hdigits d (List.mem_reverse.mp hd)

/-- The highest digit and those behind it. -/
theorem ofDigits_reverse_cons (b d : Nat) (l : List Nat) :
    Nat.ofDigits b (d :: l).reverse = d * b ^ l.length + Nat.ofDigits b l.reverse := by
  rw [List.reverse_cons, Nat.ofDigits_append, Nat.ofDigits_singleton, List.length_reverse,
    Nat.add_comm, Nat.mul_comm]

end AndixOs
