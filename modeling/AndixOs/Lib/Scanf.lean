/-
# Numbers and words in a string, as C reads them

`strtoul` to the base 16, and `sscanf` with the directives `%x`, `%s` and an ordinary character.  Both read
a number the same way: a sign, `0x`, digits.  What `%x` takes ends at its width.  A string is the list of its
characters, without the NUL.

* `takeHex_row`: what is taken of a row of digits;
* `sscanf_hex`, `sscanf_lit`, `sscanf_str`: one directive that matches.

Nothing here names the kernel.
-/
import Mathlib.Data.List.TakeWhile
import AndixOs.Lib.Hex

namespace AndixOs.Libc

open AndixOs

/-! ## 1. Numbers -/

/-- White space. -/
def isspace (c : UInt8) : Bool := c == 0x20 || (0x09 ≤ c && c ≤ 0x0D)

/-- What a string begins with, as a number to the base 16: whether there is a minus, the digits, and what is
behind them. -/
def takeHex (s : List UInt8) : Bool × List UInt8 × List UInt8 :=
  let neg := s.head? == some 0x2D
  let s := if neg || s.head? == some 0x2B then s.tail else s
  let s := if s.head? = some 0x30 ∧ (s[1]? = some 0x78 ∨ s[1]? = some 0x58) then s.drop 2 else s
  (neg, s.takeWhile (IsHex ·), s.dropWhile (IsHex ·))

/-- The number, or the greatest one if it does not fit. -/
def hexNumber (neg : Bool) (digits : List UInt8) : UInt32 :=
  if 2 ^ 32 ≤ hexValue digits then 0xffffffff
  else if neg then -UInt32.ofNat (hexValue digits)
  else UInt32.ofNat (hexValue digits)

/-- `strtoul(s, NULL, 16)`, where a `long` is a word. -/
def strtoul16 (s : List UInt8) : UInt32 :=
  let r := takeHex (s.dropWhile isspace)
  hexNumber r.1 r.2.1

/-! ## 2. `sscanf` -/

/-- `%x` of some width: the number, and what is behind it. -/
def scanHex (width : Nat) (s : List UInt8) : Option (UInt32 × List UInt8) :=
  let s := s.dropWhile isspace
  let r := takeHex (s.take width)
  if r.2.1 = [] then none else some (hexNumber r.1 r.2.1, r.2.2 ++ s.drop width)

/-- `%s`. -/
def scanStr (s : List UInt8) : Option (List UInt8 × List UInt8) :=
  let s := s.dropWhile isspace
  let word := s.takeWhile (!isspace ·)
  if word = [] then none else some (word, s.dropWhile (!isspace ·))

variable {σ : Type}

/-- A directive of a format, with what it stores to. -/
inductive Directive (σ : Type) where
  | lit (c : UInt8)
  | hex (width : Nat) (store : σ → UInt32 → σ)
  | str (store : σ → List UInt8 → σ)

/-- What is returned at a directive that fails at `s`, after `n` conversions: `EOF` if there was none and the
string is at its end. -/
def failedAt (n : Nat) (s : List UInt8) : Int := if n = 0 ∧ s = [] then -1 else n

/-- `sscanf`, after `n` conversions.  What was stored before a directive that fails stays. -/
def sscanf : List (Directive σ) → List UInt8 → Nat → σ → Int × σ
  | [], _, n, m => (n, m)
  | .lit c :: format, s, n, m =>
    if s.head? = some c then sscanf format s.tail n m else (failedAt n s, m)
  | .hex width store :: format, s, n, m =>
    match scanHex width s with
    | none => (failedAt n (s.dropWhile isspace), m)
    | some (v, s) => sscanf format s (n + 1) (store m v)
  | .str store :: format, s, n, m =>
    match scanStr s with
    | none => (failedAt n (s.dropWhile isspace), m)
    | some (word, s) => sscanf format s (n + 1) (store m word)

/-! ## 3. A row of digits -/

variable {n k : Nat} {c : UInt8} {g rest : List UInt8} {m : σ} {format : List (Directive σ)}

theorem isspace_hex (h : IsHex c) : isspace c = false := by
  simp only [isspace, Bool.or_eq_false_iff, Bool.and_eq_false_iff, beq_eq_false_iff_ne,
    decide_eq_false_iff_not]
  refine ⟨ne_of_isHex h (by decide), Or.inr fun hle => ?_⟩
  rw [UInt8.le_iff_toNat_le] at hle
  rcases isHex_cases h with h | h | h <;> exact absurd (h.1.trans hle) (by decide)

theorem dropSpace_row (h : ∀ c ∈ g, IsHex c) (hne : g ≠ []) :
    (g ++ rest).dropWhile isspace = g ++ rest := by
  obtain ⟨c, s, rfl⟩ := List.exists_cons_of_ne_nil hne
  rw [List.cons_append, List.dropWhile_cons_of_neg]
  simp [isspace_hex (h c List.mem_cons_self)]

/-- What may be behind a row: neither another digit nor the `x` of a prefix. -/
def Stops (rest : List UInt8) : Prop :=
  ∀ c, rest.head? = some c → ¬IsHex c ∧ c ≠ 0x78 ∧ c ≠ 0x58

theorem stops_nil : Stops [] := fun _ => nofun

theorem stops_dash (s : List UInt8) : Stops (0x2D :: s) := by
  intro c hc
  obtain rfl := Option.some.inj hc
  decide

/-- **A row of digits is taken whole**, and nothing besides. -/
theorem takeHex_row (h : ∀ c ∈ g, IsHex c) (hne : g ≠ []) (hrest : Stops rest) :
    takeHex (g ++ rest) = (false, g, rest) := by
  have hhead : ∀ b, ¬IsHex b → ((g ++ rest).head? == some b) = false := by
    intro b hb
    exact beq_eq_false_iff_ne.mpr (head_ne_of_isHex h hne hb)
  have hx : ¬((g ++ rest).head? = some 0x30 ∧
      ((g ++ rest)[1]? = some 0x78 ∨ (g ++ rest)[1]? = some 0x58)) := by
    rintro ⟨-, hx | hx⟩
    · exact second_ne_of_isHex h hne (by decide) (fun hc => (hrest _ hc).2.1 rfl) hx
    · exact second_ne_of_isHex h hne (by decide) (fun hc => (hrest _ hc).2.2 rfl) hx
  have hall : ∀ c ∈ g, decide (IsHex c) = true := fun c hc => decide_eq_true (h c hc)
  have hend : rest.takeWhile (IsHex ·) = [] ∧ rest.dropWhile (IsHex ·) = rest := by
    cases rest with
    | nil => exact ⟨rfl, rfl⟩
    | cons c s => simp [(hrest c rfl).1]
  simp only [takeHex, hhead 0x2D (by decide), hhead 0x2B (by decide), Bool.or_false, Bool.false_eq_true,
    if_false, if_neg hx, List.takeWhile_append_of_pos hall, List.dropWhile_append_of_pos hall, hend,
    List.append_nil]

/-- The number of a row that fits. -/
theorem hexNumber_row (r : HexRow n) (hn : n ≤ 8) :
    hexNumber false r.chars = UInt32.ofNat (hexValue r.chars) := by
  have hpow : 16 ^ n ≤ 2 ^ 32 := Nat.pow_le_pow_right (by decide : 0 < 16) hn
  rw [hexNumber, if_neg (Nat.not_le.mpr (r.value_lt.trans_le hpow)), if_neg Bool.false_ne_true]

/-- **`strtoul` of a row**. -/
theorem strtoul16_row (r : HexRow n) (hpos : 0 < n) (hn : n ≤ 8) (hrest : Stops rest) :
    strtoul16 (r.chars ++ rest) = UInt32.ofNat (hexValue r.chars) := by
  rw [strtoul16, dropSpace_row r.hex (r.ne_nil hpos), takeHex_row r.hex (r.ne_nil hpos) hrest]
  exact hexNumber_row r hn

/-- **`%x` with a row** of its width: nothing is asked of what follows. -/
theorem scanHex_row (r : HexRow n) (hpos : 0 < n) (hn : n ≤ 8) :
    scanHex n (r.chars ++ rest) = some (UInt32.ofNat (hexValue r.chars), rest) := by
  have htake := takeHex_row r.hex (r.ne_nil hpos) stops_nil
  rw [List.append_nil] at htake
  rw [scanHex, dropSpace_row r.hex (r.ne_nil hpos), List.take_left' r.length_eq,
    List.drop_left' r.length_eq, htake]
  dsimp only
  rw [if_neg (r.ne_nil hpos), hexNumber_row r hn, List.nil_append]

theorem scanStr_row (r : HexRow n) (hpos : 0 < n) : scanStr r.chars = some (r.chars, []) := by
  have hdrop : r.chars.dropWhile isspace = r.chars := by
    have hrow : (r.chars ++ []).dropWhile isspace = r.chars ++ [] := dropSpace_row r.hex (r.ne_nil hpos)
    rwa [List.append_nil] at hrow
  have hall : ∀ c ∈ r.chars, (!isspace c) = true := by
    intro c hc
    rw [isspace_hex (r.hex c hc)]
    rfl
  rw [scanStr, hdrop, List.takeWhile_eq_self_iff.mpr hall, List.dropWhile_eq_nil_iff.mpr hall]
  exact if_neg (r.ne_nil hpos)

/-! ## 4. One directive -/

theorem sscanf_hex (r : HexRow n) (hpos : 0 < n) (hn : n ≤ 8) (store : σ → UInt32 → σ) :
    sscanf (.hex n store :: format) (r.chars ++ rest) k m =
      sscanf format rest (k + 1) (store m (UInt32.ofNat (hexValue r.chars))) := by
  rw [sscanf, scanHex_row r hpos hn]

theorem sscanf_lit (c : UInt8) : sscanf (.lit c :: format) (c :: rest) k m = sscanf format rest k m := by
  rw [sscanf, if_pos List.head?_cons, List.tail_cons]

theorem sscanf_str (r : HexRow n) (hpos : 0 < n) (store : σ → List UInt8 → σ) :
    sscanf (.str store :: format) r.chars k m = sscanf format [] (k + 1) (store m r.chars) := by
  rw [sscanf, scanStr_row r hpos]

end AndixOs.Libc
