/-
# From a string to a UUID

`uuid_parse` first walks over the string and looks at every character, and then has the groups read by
`strtoul`, `strtous` and `strtouc`, each from a place in the string that is written down as a number.  The
last two groups go byte by byte, last byte first, into `clockSeqAndNode`.

`Task.Uuid` has the function on strings of Lean, for what the kernel does with UUIDs.  Here it is on bytes,
with the three functions that it calls as they are: white space, sign, prefix, overflow.  The two are the
same function (`uuidParse_string`).

* `strto_hex`: what the three read from a row of digits;
* `checkLoop_iff`: the strings that pass the walk;
* `uuidParse_right`: what is accepted, what is stored, and when two strings give the same UUID.
-/
import AndixOs.Lib.Hex
import AndixOs.Task.Uuid

namespace AndixOs.Uuid

open AndixOs
open AndixOs.Task (TaskUuid matchUuids matchUuids_iff)

/-! ## 1. `string.c` -/

def isspace (c : UInt8) : Bool :=
  c == 0x20 || c == 0x09 || c == 0x0a || c == 0x0b || c == 0x0c || c == 0x0d

def isupper (c : UInt8) : Bool := 0x41 ≤ c && c ≤ 0x5A

def isalpha (c : UInt8) : Bool := (0x41 ≤ c && c ≤ 0x5A) || (0x61 ≤ c && c ≤ 0x7A)

def isdigit (c : UInt8) : Bool := 0x30 ≤ c && c ≤ 0x39

def isxdigit (c : UInt8) : Bool :=
  (0x30 ≤ c && c ≤ 0x39) || (0x41 ≤ c && c ≤ 0x46) || (0x61 ≤ c && c ≤ 0x66)

/-! ## 2. `stdlib.c` -/

/-- The digit that the loop takes a byte for, of whatever base. -/
def charDigit (c : UInt8) : Option UInt32 :=
  if isdigit c then some (c.toUInt32 - 0x30)
  else if isalpha c then some (c.toUInt32 - if isupper c then 0x41 - 10 else 0x61 - 10)
  else none

/-- The loop, with `acc` and `any`.  The list begins at `c`; behind it is the NUL. -/
def strtoLoop (base cutoff cutlim : UInt32) : List UInt8 → UInt32 → Int → UInt32 × Int
  | [], acc, any => (acc, any)
  | c :: s, acc, any =>
    match charDigit c with
    | none => (acc, any)
    | some c =>
      if base ≤ c then (acc, any)
      else if any < 0 ∨ cutoff < acc ∨ (acc = cutoff ∧ cutlim < c) then
        strtoLoop base cutoff cutlim s acc (-1)
      else strtoLoop base cutoff cutlim s (acc * base + c) 1

/-- A sign: `neg`, and what is behind it. -/
def takeSign (s : List UInt8) : Bool × List UInt8 :=
  if s.head? = some 0x2D then (true, s.tail)
  else if s.head? = some 0x2B then (false, s.tail)
  else (false, s)

/-- `0x`: what is behind it, and the base. -/
def takePrefix (base : UInt32) (s : List UInt8) : List UInt8 × UInt32 :=
  if (base = 0 ∨ base = 16) ∧ s.head? = some 0x30 ∧ (s[1]? = some 0x78 ∨ s[1]? = some 0x58) then
    (s.drop 2, 16)
  else (s, base)

/-- What `strtouc`, `strtous` and `strtoul` share; `max` is the greatest value of the type, and `endptr` is
`NULL`. -/
def strto (max : UInt32) (nptr : List UInt8) (base : UInt32) : UInt32 :=
  let sign := takeSign (nptr.dropWhile isspace)
  let s := takePrefix base sign.2
  let base := if s.2 = 0 then if s.1.head? = some 0x30 then 8 else 10 else s.2
  let r := strtoLoop base (max / base) (max % base) s.1 0 0
  if r.2 < 0 then max else if sign.1 then -r.1 else r.1

def strtouc (nptr : List UInt8) (base : UInt32) : UInt8 := (strto 0xff nptr base).toUInt8
def strtous (nptr : List UInt8) (base : UInt32) : UInt16 := (strto 0xffff nptr base).toUInt16
def strtoul (nptr : List UInt8) (base : UInt32) : UInt32 := strto 0xffffffff nptr base

/-! ## 3. `uuid.c` -/

/-- A string: its characters, without the NUL. -/
structure CStr where
  chars : List UInt8
  noNul : 0 ∉ chars

/-- The walk, for so many more characters: the character `i` is the first of the list, or the NUL. -/
def checkLoop : Nat → Nat → List UInt8 → Bool
  | 0, _, _ => true
  | n + 1, i, cp =>
    let c := cp.headD 0
    if i = 8 ∨ i = 13 ∨ i = 18 ∨ i = 23 then
      if c = 0x2D then checkLoop n (i + 1) cp.tail else false
    else if i = 36 ∧ c = 0 then checkLoop n (i + 1) cp.tail
    else if isxdigit c then checkLoop n (i + 1) cp.tail
    else false

/-- A round of the last loop, with `cp` as a place in the string. -/
def clockRound (str : List UInt8) (s : Nat × Bytes 8) (i : Fin 8) : Nat × Bytes 8 :=
  let buf := [str.getD s.1 0, str.getD (s.1 + 1) 0]
  let cp := s.1 + 2
  let cp := if str.getD cp 0 = 0x2D then cp + 1 else cp
  (cp, s.2.set i.rev (strtouc buf 16))

/-- `uuid_parse`, with `strtoul(nptr, NULL, 16)` of the library that it is linked to. -/
def uuidParseBy (strtoul16 : List UInt8 → UInt32) (str : CStr) (uuid : TaskUuid) : Int × TaskUuid :=
  let s := str.chars
  if s.length ≠ 36 then (-1, uuid)
  else if checkLoop 37 0 s = false then (-1, uuid)
  else
    (0, ⟨strtoul16 s, strtous (s.drop 9) 16, strtous (s.drop 14) 16,
      ((List.finRange 8).foldl (clockRound s) (19, uuid.clockSeqAndNode)).2⟩)

/-- `uuid_parse`. -/
def uuidParse : CStr → TaskUuid → Int × TaskUuid := uuidParseBy fun nptr => strtoul nptr 16

/-! ## 4. What is asked of it -/

/-- A UUID as it is written: five groups of digits. -/
structure UuidText where
  timeLow : HexRow 8
  timeMid : HexRow 4
  timeHiAndVersion : HexRow 4
  clockSeq : HexRow 4
  node : HexRow 12

/-- The groups with a dash between one and the next. -/
def UuidText.chars (t : UuidText) : List UInt8 :=
  t.timeLow.chars ++ 0x2D :: (t.timeMid.chars ++ 0x2D :: (t.timeHiAndVersion.chars ++
    0x2D :: (t.clockSeq.chars ++ 0x2D :: t.node.chars)))

/-- The fields are the values of the groups.  `clockSeqAndNode` has the last byte first. -/
structure Denotes (t : UuidText) (u : TaskUuid) : Prop where
  timeLow : u.timeLow.toNat = hexValue t.timeLow.chars
  timeMid : u.timeMid.toNat = hexValue t.timeMid.chars
  timeHiAndVersion : u.timeHiAndVersion.toNat = hexValue t.timeHiAndVersion.chars
  clockSeqAndNode : Nat.ofDigits 256 (u.clockSeqAndNode.toList.map UInt8.toNat) =
    hexValue (t.clockSeq.chars ++ t.node.chars)

/-! ## 5. Reading a row of digits -/

variable {c : UInt8} {g rest s : List UInt8} {max acc : UInt32}

theorem isxdigit_iff : isxdigit c = true ↔ IsHex c := by
  simp only [isxdigit, isHex_iff, Bool.or_eq_true, Bool.and_eq_true, decide_eq_true_eq, or_assoc]

theorem isdigit_iff : isdigit c = true ↔ 0x30 ≤ c.toNat ∧ c.toNat ≤ 0x39 := by
  simp only [isdigit, Bool.and_eq_true, decide_eq_true_eq, UInt8.le_iff_toNat_le, UInt8.reduceToNat]

theorem isupper_iff : isupper c = true ↔ 0x41 ≤ c.toNat ∧ c.toNat ≤ 0x5A := by
  simp only [isupper, Bool.and_eq_true, decide_eq_true_eq, UInt8.le_iff_toNat_le, UInt8.reduceToNat]

theorem isalpha_iff : isalpha c = true ↔
    (0x41 ≤ c.toNat ∧ c.toNat ≤ 0x5A) ∨ (0x61 ≤ c.toNat ∧ c.toNat ≤ 0x7A) := by
  simp only [isalpha, Bool.or_eq_true, Bool.and_eq_true, decide_eq_true_eq, UInt8.le_iff_toNat_le,
    UInt8.reduceToNat]

/-- The loop takes a digit for what it is. -/
theorem charDigit_hex (h : IsHex c) : ∃ d : UInt32, charDigit c = some d ∧ d.toNat = digitOf c := by
  have hsub : ∀ k : UInt32, k.toNat ≤ c.toNat → (c.toUInt32 - k).toNat = c.toNat - k.toNat := by
    intro k hk
    have hle : k ≤ c.toUInt32 := UInt32.le_iff_toNat_le.mpr (hk.trans_eq (UInt8.toNat_toUInt32 c).symm)
    rw [UInt32.toNat_sub_of_le _ _ hle, UInt8.toNat_toUInt32]
  rw [charDigit]
  obtain ⟨hlo, hhi, hdigit, -⟩ | ⟨hlo, hhi, hdigit, -⟩ | ⟨hlo, hhi, hdigit, -⟩ := isHex_cases h
  · have his := isdigit_iff.mpr ⟨hlo, hhi⟩
    rw [if_pos his, hdigit]
    exact ⟨_, rfl, hsub 0x30 hlo⟩
  · have hnot : ¬isdigit c = true := fun his => absurd (isdigit_iff.mp his).2 (by omega)
    have halpha : isalpha c = true := isalpha_iff.mpr (Or.inl ⟨hlo, by omega⟩)
    have hupper : isupper c = true := isupper_iff.mpr ⟨hlo, by omega⟩
    rw [if_neg hnot, if_pos halpha, if_pos hupper, hdigit]
    exact ⟨_, rfl, hsub (0x41 - 10) (Nat.le_trans (by decide) hlo)⟩
  · have hnot : ¬isdigit c = true := fun his => absurd (isdigit_iff.mp his).2 (by omega)
    have halpha : isalpha c = true := isalpha_iff.mpr (Or.inr ⟨hlo, by omega⟩)
    have hupper : ¬isupper c = true := fun his => absurd (isupper_iff.mp his).2 (by omega)
    rw [if_neg hnot, if_pos halpha, if_neg hupper, hdigit]
    exact ⟨_, rfl, hsub (0x61 - 10) (Nat.le_trans (by decide) hlo)⟩

/-- What is behind a row of digits is no part of it: the end of the string, or a dash. -/
def Ends (rest : List UInt8) : Prop := rest = [] ∨ rest.head? = some 0x2D

/-- **The loop reads a row of digits**, if its value fits. -/
theorem strtoLoop_hex (hrest : Ends rest) : ∀ {g : List UInt8} {acc : UInt32} {any : Int},
    (∀ c ∈ g, IsHex c) → 0 ≤ any → acc.toNat * 16 ^ g.length + hexValue g ≤ max.toNat →
    ∃ any', 0 ≤ any' ∧ strtoLoop 16 (max / 16) (max % 16) (g ++ rest) acc any =
      (UInt32.ofNat (acc.toNat * 16 ^ g.length + hexValue g), any')
  | [], acc, any, _, hany, _ => by
    have hvalue : UInt32.ofNat (acc.toNat * 16 ^ ([] : List UInt8).length + hexValue []) = acc := by
      have hnil : hexValue [] = 0 := rfl
      rw [hnil, List.length_nil, Nat.pow_zero, Nat.mul_one, Nat.add_zero, UInt32.ofNat_toNat]
    rw [hvalue, List.nil_append]
    refine ⟨any, hany, ?_⟩
    rcases hrest with rfl | hdash
    · rfl
    · obtain ⟨s, rfl⟩ := List.head?_eq_some_iff.mp hdash
      rfl
  | c :: g, acc, any, hhex, hany, hfit => by
    obtain ⟨hc, hg⟩ := List.forall_mem_cons.mp hhex
    obtain ⟨d, hd, hdigit⟩ := charDigit_hex hc
    have hlt := digitOf_lt hc
    have hmax := max.toNat_lt
    rw [List.length_cons, hexValue_cons] at hfit ⊢
    have hsum : acc.toNat * 16 ^ (g.length + 1) + (digitOf c * 16 ^ g.length + hexValue g) =
        (acc.toNat * 16 + d.toNat) * 16 ^ g.length + hexValue g := by
      rw [hdigit]
      ring
    rw [hsum] at hfit ⊢
    have hone : 1 ≤ 16 ^ g.length := Nat.one_le_pow _ _ (by decide)
    have hnext : acc.toNat * 16 + d.toNat ≤ max.toNat := by
      have hmul := Nat.mul_le_mul_left (acc.toNat * 16 + d.toNat) hone
      omega
    have hsixteen : (16 : UInt32).toNat = 16 := rfl
    have hacc : (acc * 16 + d).toNat = acc.toNat * 16 + d.toNat := by
      rw [UInt32.toNat_add, UInt32.toNat_mul, hsixteen]
      omega
    have hbase : ¬(16 : UInt32) ≤ d := by
      rw [UInt32.le_iff_toNat_le, hsixteen]
      omega
    have hover : ¬(any < 0 ∨ max / 16 < acc ∨ (acc = max / 16 ∧ max % 16 < d)) := by
      rw [UInt32.lt_iff_toNat_lt, UInt32.lt_iff_toNat_lt, ← UInt32.toNat_inj, UInt32.toNat_div,
        UInt32.toNat_mod, hsixteen]
      omega
    have hfit' : (acc * 16 + d).toNat * 16 ^ g.length + hexValue g ≤ max.toNat := by
      rw [hacc]
      exact hfit
    have ih := strtoLoop_hex hrest hg (by decide : (0 : Int) ≤ 1) hfit'
    rw [hacc] at ih
    rw [List.cons_append, strtoLoop, hd]
    simp only [if_neg hbase, if_neg hover]
    exact ih

theorem isspace_hex (h : IsHex c) : isspace c = false := by
  simp only [isspace, Bool.or_eq_false_iff, beq_eq_false_iff_ne]
  refine ⟨⟨⟨⟨⟨?_, ?_⟩, ?_⟩, ?_⟩, ?_⟩, ?_⟩
  all_goals exact ne_of_isHex h (by decide)

/-- Nothing comes before the digits of a row. -/
theorem takePrefix_hex (hhex : ∀ c ∈ g, IsHex c) (hne : g ≠ []) (hrest : Ends rest) :
    takeSign ((g ++ rest).dropWhile isspace) = (false, g ++ rest) ∧
      takePrefix 16 (g ++ rest) = (g ++ rest, 16) := by
  obtain ⟨c, s, rfl⟩ := List.exists_cons_of_ne_nil hne
  obtain ⟨hc, hs⟩ := List.forall_mem_cons.mp hhex
  have hdrop : (c :: s ++ rest).dropWhile isspace = c :: s ++ rest := by
    rw [List.cons_append, List.dropWhile_cons_of_neg (by simp [isspace_hex hc])]
  have hhead : ∀ b, ¬IsHex b → (c :: s ++ rest).head? ≠ some b := fun b => head_ne_of_isHex hhex hne
  have hsecond : ∀ b, ¬IsHex b → b ≠ 0x2D → (c :: s ++ rest)[1]? ≠ some b := by
    intro b hb hdash
    refine second_ne_of_isHex hhex hne hb ?_
    rcases hrest with rfl | hrest
    · exact nofun
    · rw [hrest]
      exact fun heq => hdash (Option.some.inj heq).symm
  rw [hdrop]
  constructor
  · rw [takeSign, if_neg (hhead _ (by decide)), if_neg (hhead _ (by decide))]
  · rw [takePrefix, if_neg]
    rintro ⟨-, -, hx | hx⟩
    · exact hsecond _ (by decide) (by decide) hx
    · exact hsecond _ (by decide) (by decide) hx

/-- **`strtouc`, `strtous` and `strtoul` of a row of digits**: its value, if that fits. -/
theorem strto_hex (hhex : ∀ c ∈ g, IsHex c) (hne : g ≠ []) (hrest : Ends rest)
    (hfit : hexValue g ≤ max.toNat) : strto max (g ++ rest) 16 = UInt32.ofNat (hexValue g) := by
  obtain ⟨hsign, htake⟩ := takePrefix_hex hhex hne hrest
  have hzero : (0 : UInt32).toNat * 16 ^ g.length + hexValue g = hexValue g := by
    rw [UInt32.toNat_zero, Nat.zero_mul, Nat.zero_add]
  obtain ⟨any', hany, hloop⟩ := strtoLoop_hex hrest hhex
    (Int.le_refl 0) (hzero.trans_le hfit)
  have hbase : ¬(16 : UInt32) = 0 := by decide
  rw [strto, hsign]
  simp only [htake, if_neg hbase, hloop, hzero, if_neg (Int.not_lt.mpr hany), Bool.false_eq_true,
    if_false]

/-! ## 6. The walk -/

variable {i m n : Nat}

/-- No character from `i` on, so many of them, is one of those that the walk treats apart. -/
def Plain (i n : Nat) : Prop :=
  ∀ k < n, ¬(i + k = 8 ∨ i + k = 13 ∨ i + k = 18 ∨ i + k = 23) ∧ i + k ≠ 36

instance (i n : Nat) : Decidable (Plain i n) := inferInstanceAs (Decidable (∀ _ < _, _))

/-- **The walk over a row**: all its characters are digits. -/
theorem checkLoop_row (hplain : Plain i n) (hlen : n ≤ s.length) :
    checkLoop (n + m) i s = true ↔
      (∀ c ∈ s.take n, IsHex c) ∧ checkLoop m (i + n) (s.drop n) = true := by
  induction n generalizing i s with
  | zero => simp
  | succ n ih =>
    obtain ⟨c, s, rfl⟩ := List.exists_cons_of_length_pos (Nat.lt_of_lt_of_le (Nat.succ_pos n) hlen)
    obtain ⟨hdash, hend⟩ := hplain 0 (Nat.succ_pos n)
    have hnext : Plain (i + 1) n := by
      intro k hk
      have hk' := hplain (k + 1) (Nat.succ_lt_succ hk)
      rwa [Nat.add_comm k 1, ← Nat.add_assoc] at hk'
    rw [Nat.add_zero] at hdash hend
    have hstep : n + 1 + m = n + m + 1 := Nat.add_right_comm n 1 m
    have hindex : i + (n + 1) = i + 1 + n := by omega
    rw [hstep, checkLoop, List.headD_cons, List.tail_cons, if_neg hdash, if_neg fun h => hend h.1,
      List.take_succ_cons, List.drop_succ_cons, List.forall_mem_cons, hindex, ← isxdigit_iff]
    cases isxdigit c with
    | true => simpa using ih hnext (Nat.le_of_succ_le_succ hlen)
    | false => simp

/-- The walk over a dash. -/
theorem checkLoop_dash (hdash : i = 8 ∨ i = 13 ∨ i = 18 ∨ i = 23) :
    checkLoop (n + 1) i s = true ↔ s.head? = some 0x2D ∧ checkLoop n (i + 1) s.tail = true := by
  rw [checkLoop, if_pos hdash]
  cases s with
  | nil => exact iff_of_false Bool.false_ne_true fun h => absurd h.1 nofun
  | cons c s =>
    rw [List.headD_cons, List.head?_cons, List.tail_cons, Option.some_inj]
    split
    · simp [*]
    · simp [*]

/-- A row at the beginning of a string that passes. -/
theorem row_of_checkLoop (hplain : Plain i n) (hlen : n ≤ s.length)
    (h : checkLoop (n + m) i s = true) :
    ∃ (g : HexRow n) (rest : List UInt8), s = g.chars ++ rest ∧ checkLoop m (i + n) rest = true := by
  obtain ⟨hhex, hrest⟩ := (checkLoop_row hplain hlen).mp h
  exact ⟨⟨s.take n, List.length_take_of_le hlen, hhex⟩, s.drop n, (List.take_append_drop n s).symm, hrest⟩

theorem dash_of_checkLoop (hdash : i = 8 ∨ i = 13 ∨ i = 18 ∨ i = 23)
    (h : checkLoop (n + 1) i s = true) :
    ∃ rest, s = 0x2D :: rest ∧ checkLoop n (i + 1) rest = true := by
  obtain ⟨hhead, hrest⟩ := (checkLoop_dash hdash).mp h
  obtain ⟨rest, rfl⟩ := List.head?_eq_some_iff.mp hhead
  exact ⟨rest, rfl, hrest⟩

theorem checkLoop_append (g : HexRow n) (hplain : Plain i n) :
    checkLoop (n + m) i (g.chars ++ rest) = true ↔ checkLoop m (i + n) rest = true := by
  have hlen : n ≤ (g.chars ++ rest).length := by
    rw [List.length_append, g.length_eq]
    exact Nat.le_add_right n _
  rw [checkLoop_row hplain hlen, List.take_left' g.length_eq, List.drop_left' g.length_eq]
  exact and_iff_right g.hex

theorem checkLoop_cons (hdash : i = 8 ∨ i = 13 ∨ i = 18 ∨ i = 23) :
    checkLoop (n + 1) i (0x2D :: rest) = true ↔ checkLoop n (i + 1) rest = true := by
  rw [checkLoop_dash hdash]
  exact and_iff_right rfl

/-- **The strings that pass**: five groups with dashes. -/
theorem checkLoop_iff (hlen : s.length = 36) :
    checkLoop 37 0 s = true ↔ ∃ t : UuidText, s = t.chars := by
  constructor
  · intro h
    obtain ⟨g1, s, rfl, h1⟩ := row_of_checkLoop (n := 8) (m := 29) (by decide) (by omega) h
    obtain ⟨s, rfl, h2⟩ := dash_of_checkLoop (n := 28) (by decide) h1
    rw [List.length_append, List.length_cons, g1.length_eq] at hlen
    obtain ⟨g2, s, rfl, h3⟩ := row_of_checkLoop (n := 4) (m := 24) (by decide) (by omega) h2
    obtain ⟨s, rfl, h4⟩ := dash_of_checkLoop (n := 23) (by decide) h3
    rw [List.length_append, List.length_cons, g2.length_eq] at hlen
    obtain ⟨g3, s, rfl, h5⟩ := row_of_checkLoop (n := 4) (m := 19) (by decide) (by omega) h4
    obtain ⟨s, rfl, h6⟩ := dash_of_checkLoop (n := 18) (by decide) h5
    rw [List.length_append, List.length_cons, g3.length_eq] at hlen
    obtain ⟨g4, s, rfl, h7⟩ := row_of_checkLoop (n := 4) (m := 14) (by decide) (by omega) h6
    obtain ⟨s, rfl, h8⟩ := dash_of_checkLoop (n := 13) (by decide) h7
    rw [List.length_append, List.length_cons, g4.length_eq] at hlen
    obtain ⟨g5, s, rfl, h9⟩ := row_of_checkLoop (n := 12) (m := 1) (by decide) (by omega) h8
    rw [List.length_append, g5.length_eq] at hlen
    obtain rfl : s = [] := List.eq_nil_of_length_eq_zero (by omega)
    rw [List.append_nil]
    exact ⟨⟨g1, g2, g3, g4, g5⟩, rfl⟩
  · rintro ⟨t, rfl⟩
    refine (checkLoop_append (n := 8) (m := 29) t.timeLow (by decide)).mpr ?_
    refine (checkLoop_cons (n := 28) (by decide)).mpr ?_
    refine (checkLoop_append (n := 4) (m := 24) t.timeMid (by decide)).mpr ?_
    refine (checkLoop_cons (n := 23) (by decide)).mpr ?_
    refine (checkLoop_append (n := 4) (m := 19) t.timeHiAndVersion (by decide)).mpr ?_
    refine (checkLoop_cons (n := 18) (by decide)).mpr ?_
    refine (checkLoop_append (n := 4) (m := 14) t.clockSeq (by decide)).mpr ?_
    refine (checkLoop_cons (n := 13) (by decide)).mpr ?_
    rw [← List.append_nil t.node.chars]
    exact (checkLoop_append (n := 12) (m := 1) t.node (by decide)).mpr (by decide)

/-! ## 7. The bytes -/

section Clock

variable {str : List UInt8} {cp : Nat} {v : Bytes 8} {j : Fin 8}

theorem clockRound_pair (h : str.getD (cp + 2) 0 ≠ 0x2D) : clockRound str (cp, v) j =
    (cp + 2, v.set j.rev (strtouc [str.getD cp 0, str.getD (cp + 1) 0] 16)) := by
  rw [clockRound]
  dsimp only
  rw [if_neg h]

theorem clockRound_dash (h : str.getD (cp + 2) 0 = 0x2D) : clockRound str (cp, v) j =
    (cp + 3, v.set j.rev (strtouc [str.getD cp 0, str.getD (cp + 1) 0] 16)) := by
  rw [clockRound]
  dsimp only
  rw [if_pos h]

/-- Eight bytes that are set from the last to the first. -/
theorem toList_set (v : Bytes 8) (x : Fin 8 → UInt8) :
    ((List.finRange 8).foldl (fun v j => v.set j.rev (x j)) v).toList =
      ((List.finRange 8).map x).reverse := by
  obtain ⟨l, hl⟩ := v
  match l, hl with
  | [_, _, _, _, _, _, _, _], _ => rfl

/-- The two digits of byte `j`: behind the first two bytes is a dash. -/
def clockPair (tail : List UInt8) (j : Fin 8) : UInt8 × UInt8 :=
  let k := 2 * j.val + if j.val < 2 then 0 else 1
  (tail.getD k 0, tail.getD (k + 1) 0)

/-- Where the round `k` begins. -/
def clockStart (k : Nat) : Nat := 19 + (2 * k + if k < 2 then 0 else 1)

/-- The last two groups. -/
def UuidText.tail (t : UuidText) : List UInt8 := t.clockSeq.chars ++ 0x2D :: t.node.chars

theorem getD_ne_dash {n : Nat} (g : HexRow n) (k : Nat) : g.chars.getD k 0 ≠ 0x2D := by
  by_cases hk : k < g.chars.length
  · rw [List.getD_eq_getElem _ _ hk]
    exact ne_of_isHex (g.hex _ (List.getElem_mem hk)) (by decide)
  · rw [List.getD_eq_default _ _ (Nat.not_lt.mp hk)]
    decide

theorem tail_dash (t : UuidText) : t.tail.getD 4 0 = 0x2D := by
  rw [UuidText.tail, List.getD_append_right _ _ _ _ t.clockSeq.length_eq.le, t.clockSeq.length_eq]
  rfl

/-- The only dash. -/
theorem tail_ne_dash (t : UuidText) {k : Nat} (hk : k ≠ 4) : t.tail.getD k 0 ≠ 0x2D := by
  have hlen := t.clockSeq.length_eq
  rw [UuidText.tail]
  rcases Nat.lt_or_gt_of_ne hk with hlt | hgt
  · rw [List.getD_append _ _ _ _ (hlt.trans_eq hlen.symm)]
    exact getD_ne_dash t.clockSeq k
  · obtain ⟨n, rfl⟩ := Nat.exists_eq_add_of_lt hgt
    rw [List.getD_append_right _ _ _ _ (by omega), hlen, Nat.add_assoc, Nat.add_sub_cancel_left,
      List.getD_cons_succ]
    exact getD_ne_dash t.node n

/-- The last two groups in the string. -/
theorem chars_drop (t : UuidText) : t.chars.drop 19 = t.tail := by
  have hsplit : t.chars = (t.timeLow.chars ++ 0x2D :: (t.timeMid.chars ++ 0x2D ::
      (t.timeHiAndVersion.chars ++ [0x2D]))) ++ t.tail := by
    simp [UuidText.chars, UuidText.tail]
  rw [hsplit, List.drop_left' (by simp [t.timeLow.length_eq, t.timeMid.length_eq,
    t.timeHiAndVersion.length_eq])]

theorem chars_getD (t : UuidText) (k : Nat) : t.chars.getD (19 + k) 0 = t.tail.getD k 0 := by
  rw [← chars_drop, List.getD_eq_getElem?_getD, List.getD_eq_getElem?_getD, List.getElem?_drop]

/-- **One round** sets its byte from its two digits. -/
theorem clockRound_eq (t : UuidText) (v : Bytes 8) (j : Fin 8) :
    clockRound t.chars (clockStart j.val, v) j = (clockStart (j.val + 1),
      v.set j.rev (strtouc [(clockPair t.tail j).1, (clockPair t.tail j).2] 16)) := by
  have hpair : [t.chars.getD (clockStart j.val) 0, t.chars.getD (clockStart j.val + 1) 0] =
      [(clockPair t.tail j).1, (clockPair t.tail j).2] := by
    rw [clockStart, chars_getD, Nat.add_assoc 19, chars_getD]
    rfl
  rw [← hpair]
  by_cases hj : j.val = 1
  · rw [clockRound_dash]
    · rw [hj]
      rfl
    · rw [hj]
      exact (chars_getD t 4).trans (tail_dash t)
  · have hnext : clockStart (j.val + 1) = clockStart j.val + 2 := by
      simp only [clockStart]
      split_ifs <;> omega
    rw [clockRound_pair, hnext]
    rw [clockStart, Nat.add_assoc 19, chars_getD]
    refine tail_ne_dash t ?_
    split_ifs <;> omega

/-- **The last loop**, over all rounds. -/
theorem clockLoop (t : UuidText) (v : Bytes 8) :
    ((List.finRange 8).foldl (clockRound t.chars) (19, v)).2.toList =
      ((List.finRange 8).map fun j =>
        strtouc [(clockPair t.tail j).1, (clockPair t.tail j).2] 16).reverse := by
  -- any rounds that follow one another
  have hrounds : ∀ (js : List (Fin 8)) (k : Nat) (v : Bytes 8),
      js.map Fin.val = List.range' k js.length →
      js.foldl (clockRound t.chars) (clockStart k, v) = (clockStart (k + js.length),
        js.foldl (fun v j => v.set j.rev
          (strtouc [(clockPair t.tail j).1, (clockPair t.tail j).2] 16)) v) := by
    intro js
    induction js with
    | nil => exact fun _ _ _ => rfl
    | cons j js ih =>
      intro k v hjs
      rw [List.map_cons, List.length_cons, List.range'_succ, List.cons.injEq] at hjs
      obtain ⟨rfl, hrest⟩ := hjs
      rw [List.foldl_cons, clockRound_eq, ih _ _ hrest, List.foldl_cons, List.length_cons]
      congr 2
      omega
  have hall := hrounds (List.finRange 8) 0 v (by decide)
  rw [← toList_set v]
  exact congrArg (fun s => s.2.toList) hall

/-- The digits of the last two groups, without the dash. -/
theorem tail_getD (t : UuidText) {k : Nat} : t.tail.getD (k + if k < 4 then 0 else 1) 0 =
    (t.clockSeq.chars ++ t.node.chars).getD k 0 := by
  have hlen := t.clockSeq.length_eq
  rw [UuidText.tail]
  by_cases hk : k < 4
  · rw [if_pos hk, Nat.add_zero, List.getD_append _ _ _ _ (hk.trans_eq hlen.symm),
      List.getD_append _ _ _ _ (hk.trans_eq hlen.symm)]
  · rw [if_neg hk, List.getD_append_right _ _ _ _ (by omega), List.getD_append_right _ _ _ _ (by omega),
      Nat.sub_add_comm (by omega), List.getD_cons_succ]

end Clock

/-! ## 8. What is stored -/

variable {t t' : UuidText} {str str' : CStr} {u u' : TaskUuid}

/-- The digits of `clockSeqAndNode`. -/
def UuidText.clock (t : UuidText) : HexRow 16 where
  chars := t.clockSeq.chars ++ t.node.chars
  length_eq := by rw [List.length_append, t.clockSeq.length_eq, t.node.length_eq]
  hex := List.forall_mem_append.mpr ⟨t.clockSeq.hex, t.node.hex⟩

/-- The value of its byte `j`, from the first to the last. -/
def UuidText.clockByte (t : UuidText) (j : Nat) : Nat :=
  hexValue [t.clock.chars.getD (2 * j) 0, t.clock.chars.getD (2 * j + 1) 0]

/-- The UUID that a text stands for. -/
def UuidText.value (t : UuidText) : TaskUuid where
  timeLow := UInt32.ofNat (hexValue t.timeLow.chars)
  timeMid := UInt16.ofNat (hexValue t.timeMid.chars)
  timeHiAndVersion := UInt16.ofNat (hexValue t.timeHiAndVersion.chars)
  clockSeqAndNode := ⟨((List.range 8).map fun j => UInt8.ofNat (t.clockByte j)).reverse, by simp⟩

theorem clockByte_lt (t : UuidText) {j : Nat} (hj : j < 8) : t.clockByte j < 256 :=
  hexValue_lt (t.clock.pair (by omega))

/-- **The value of a text** is what the groups say. -/
theorem denotes_value (t : UuidText) : Denotes t t.value where
  timeLow := UInt32.toNat_ofNat_of_lt' t.timeLow.value_lt
  timeMid := UInt16.toNat_ofNat_of_lt' t.timeMid.value_lt
  timeHiAndVersion := UInt16.toNat_ofNat_of_lt' t.timeHiAndVersion.value_lt
  clockSeqAndNode := by
    have hbytes : ((List.range 8).map fun j => UInt8.ofNat (t.clockByte j)).reverse.map UInt8.toNat =
        ((List.range 8).map t.clockByte).reverse := by
      rw [List.map_reverse, List.map_map]
      refine congrArg List.reverse (List.map_congr_left fun j hj => ?_)
      exact UInt8.toNat_ofNat_of_lt' (clockByte_lt t (List.mem_range.mp hj))
    exact (congrArg (Nat.ofDigits 256) hbytes).trans (hexValue_pairs t.clock.length_eq).symm

/-- Texts with the same digits, but for the case of letters. -/
theorem lowerCase_chars_iff : t.chars.map lowerCase = t'.chars.map lowerCase ↔
    t.timeLow.chars.map lowerCase = t'.timeLow.chars.map lowerCase ∧
    t.timeMid.chars.map lowerCase = t'.timeMid.chars.map lowerCase ∧
    t.timeHiAndVersion.chars.map lowerCase = t'.timeHiAndVersion.chars.map lowerCase ∧
    t.clock.chars.map lowerCase = t'.clock.chars.map lowerCase := by
  have hlen : ∀ {n : Nat} (r r' : HexRow n),
      (r.chars.map lowerCase).length = (r'.chars.map lowerCase).length := by
    intro n r r'
    rw [List.length_map, List.length_map, r.length_eq, r'.length_eq]
  simp only [UuidText.chars, UuidText.clock, List.map_append, List.map_cons]
  rw [List.append_eq_append_iff_of_size_eq_left (hlen _ _), List.cons.injEq,
    List.append_eq_append_iff_of_size_eq_left (hlen _ _), List.cons.injEq,
    List.append_eq_append_iff_of_size_eq_left (hlen _ _), List.cons.injEq,
    List.append_eq_append_iff_of_size_eq_left (hlen _ _), List.cons.injEq,
    List.append_eq_append_iff_of_size_eq_left (hlen _ _)]
  simp only [true_and]

/-- **UUIDs of texts** are equal exactly when the texts are, but for the case of letters. -/
theorem Denotes.eq_iff (h : Denotes t u) (h' : Denotes t' u') :
    u = u' ↔ t.chars.map lowerCase = t'.chars.map lowerCase := by
  have hrow : ∀ {n : Nat} (r r' : HexRow n),
      hexValue r.chars = hexValue r'.chars ↔ r.chars.map lowerCase = r'.chars.map lowerCase :=
    fun r r' => hexValue_inj r.hex r'.hex (r.length_eq.trans r'.length_eq.symm)
  rw [lowerCase_chars_iff, ← hrow t.timeLow, ← hrow t.timeMid, ← hrow t.timeHiAndVersion, ← hrow t.clock,
    ← h.timeLow, ← h'.timeLow, ← h.timeMid, ← h'.timeMid, ← h.timeHiAndVersion, ← h'.timeHiAndVersion]
  have hclock : hexValue t.clock.chars = hexValue t'.clock.chars ↔ u.clockSeqAndNode = u'.clockSeqAndNode := by
    have hu : _ = hexValue t.clock.chars := h.clockSeqAndNode
    have hu' : _ = hexValue t'.clock.chars := h'.clockSeqAndNode
    rw [← hu, ← hu']
    constructor
    · intro heq
      have hlt : ∀ (v : Bytes 8), ∀ x ∈ v.toList.map UInt8.toNat, x < 256 := by
        intro v x hx
        obtain ⟨b, -, rfl⟩ := List.mem_map.mp hx
        exact b.toNat_lt
      have hlist := Nat.ofDigits_inj_of_len_eq (by decide) (by simp) (hlt _) (hlt _) heq
      exact List.Vector.toList_injective (List.map_injective_iff.mpr (fun _ _ => UInt8.toNat_inj.mp) hlist)
    · intro heq
      rw [heq]
  rw [hclock, UInt32.toNat_inj, UInt16.toNat_inj, UInt16.toNat_inj]
  obtain ⟨a1, a2, a3, a4⟩ := u
  obtain ⟨b1, b2, b3, b4⟩ := u'
  exact TaskUuid.mk.injEq _ _ _ _ _ _ _ _ ▸ Iff.rfl

/-! ## 9. `uuid_parse` -/

/-- A `strtoul` that reads a row of eight digits for its value. -/
def ReadsRow (strtoul16 : List UInt8 → UInt32) : Prop :=
  ∀ (r : HexRow 8) (rest : List UInt8), Ends rest →
    strtoul16 (r.chars ++ rest) = UInt32.ofNat (hexValue r.chars)

theorem strtoul_readsRow : ReadsRow (strtoul · 16) := fun r _ hrest =>
  strto_hex r.hex (r.ne_nil (by decide)) hrest (Nat.le_of_lt_succ r.value_lt)

theorem strtous_row (r : HexRow 4) (hrest : Ends rest) :
    strtous (r.chars ++ rest) 16 = UInt16.ofNat (hexValue r.chars) := by
  have hfit : hexValue r.chars ≤ (0xffff : UInt32).toNat := Nat.le_of_lt_succ r.value_lt
  rw [strtous, strto_hex r.hex (r.ne_nil (by decide)) hrest hfit]
  exact UInt32.toUInt16_ofNat' _

theorem strtouc_pair {d : UInt8} (h : ∀ b ∈ [c, d], IsHex b) :
    strtouc [c, d] 16 = UInt8.ofNat (hexValue [c, d]) := by
  have hread : strto 0xff ([c, d] ++ []) 16 = UInt32.ofNat (hexValue [c, d]) :=
    strto_hex h (List.cons_ne_nil _ _) (Or.inl rfl) (Nat.le_of_lt_succ (hexValue_lt h))
  rw [List.append_nil] at hread
  rw [strtouc, hread]
  exact UInt32.toUInt8_ofNat' _

theorem length_chars (t : UuidText) : t.chars.length = 36 := by
  simp [UuidText.chars, t.timeLow.length_eq, t.timeMid.length_eq, t.timeHiAndVersion.length_eq,
    t.clockSeq.length_eq, t.node.length_eq]

/-- The second group and the third, with what is behind them. -/
theorem drop_timeMid (t : UuidText) : ∃ rest, Ends rest ∧ t.chars.drop 9 = t.timeMid.chars ++ rest := by
  have hsplit : t.chars = (t.timeLow.chars ++ [0x2D]) ++ (t.timeMid.chars ++ 0x2D ::
      (t.timeHiAndVersion.chars ++ 0x2D :: (t.clockSeq.chars ++ 0x2D :: t.node.chars))) := by
    simp [UuidText.chars]
  rw [hsplit, List.drop_left' (by simp [t.timeLow.length_eq])]
  exact ⟨_, Or.inr rfl, rfl⟩

theorem drop_timeHiAndVersion (t : UuidText) :
    ∃ rest, Ends rest ∧ t.chars.drop 14 = t.timeHiAndVersion.chars ++ rest := by
  have hsplit : t.chars = (t.timeLow.chars ++ 0x2D :: t.timeMid.chars ++ [0x2D]) ++
      (t.timeHiAndVersion.chars ++ 0x2D :: (t.clockSeq.chars ++ 0x2D :: t.node.chars)) := by
    simp [UuidText.chars]
  rw [hsplit, List.drop_left' (by simp [t.timeLow.length_eq, t.timeMid.length_eq])]
  exact ⟨_, Or.inr rfl, rfl⟩

/-- What the last loop leaves. -/
theorem clockLoop_value (t : UuidText) (v : Bytes 8) :
    ((List.finRange 8).foldl (clockRound t.chars) (19, v)).2 = t.value.clockSeqAndNode := by
  refine List.Vector.toList_injective ((clockLoop t v).trans (congrArg List.reverse ?_))
  have hrange : List.range 8 = (List.finRange 8).map Fin.val := by decide
  rw [hrange, List.map_map]
  refine List.map_congr_left fun j _ => ?_
  have hpair : [(clockPair t.tail j).1, (clockPair t.tail j).2] =
      [t.clock.chars.getD (2 * j.val) 0, t.clock.chars.getD (2 * j.val + 1) 0] := by
    have hfst : t.tail.getD (2 * j.val + if 2 * j.val < 4 then 0 else 1) 0 =
        t.clock.chars.getD (2 * j.val) 0 := tail_getD t
    have hsnd : t.tail.getD (2 * j.val + 1 + if 2 * j.val + 1 < 4 then 0 else 1) 0 =
        t.clock.chars.getD (2 * j.val + 1) 0 := tail_getD t
    rw [← hfst, ← hsnd, clockPair]
    by_cases hj : j.val < 2
    · rw [if_pos hj, if_pos (by omega), if_pos (by omega)]
    · rw [if_neg hj, if_neg (by omega), if_neg (by omega)]
  rw [hpair]
  exact strtouc_pair (t.clock.pair (by omega))

variable {strtoul16 : List UInt8 → UInt32}

/-- **A text is accepted**, and its value is stored. -/
theorem uuidParseBy_text (hreads : ReadsRow strtoul16) (h : str.chars = t.chars) :
    uuidParseBy strtoul16 str u = (0, t.value) := by
  have hlen : ¬str.chars.length ≠ 36 := by
    rw [h, length_chars, not_not]
  have hcheck : ¬checkLoop 37 0 str.chars = false := by
    rw [(checkLoop_iff (not_not.mp hlen)).mpr ⟨t, h⟩]
    exact Bool.true_eq_false_eq_False
  have hlow : strtoul16 t.chars = t.value.timeLow := hreads t.timeLow _ (Or.inr rfl)
  have hmid : strtous (t.chars.drop 9) 16 = t.value.timeMid := by
    obtain ⟨rest, hrest, hdrop⟩ := drop_timeMid t
    rw [hdrop]
    exact strtous_row t.timeMid hrest
  have hhi : strtous (t.chars.drop 14) 16 = t.value.timeHiAndVersion := by
    obtain ⟨rest, hrest, hdrop⟩ := drop_timeHiAndVersion t
    rw [hdrop]
    exact strtous_row t.timeHiAndVersion hrest
  rw [uuidParseBy, if_neg hlen, if_neg hcheck, h, hlow, hmid, hhi, clockLoop_value]

/-- **Any other string is refused**, and nothing is stored. -/
theorem uuidParseBy_refused (h : ¬∃ t : UuidText, str.chars = t.chars) :
    uuidParseBy strtoul16 str u = (-1, u) := by
  rw [uuidParseBy]
  by_cases hlen : str.chars.length = 36
  · have hcheck : checkLoop 37 0 str.chars = false :=
      Bool.eq_false_iff.mpr fun hpass => h ((checkLoop_iff hlen).mp hpass)
    rw [if_neg (not_not.mpr hlen), if_pos hcheck]
  · rw [if_pos hlen]

/-- Texts are what is accepted. -/
theorem uuidParseBy_iff (hreads : ReadsRow strtoul16) :
    (uuidParseBy strtoul16 str u).1 = 0 ↔ ∃ t : UuidText, str.chars = t.chars := by
  constructor
  · intro hzero
    by_contra hnone
    rw [uuidParseBy_refused hnone] at hzero
    exact absurd hzero (Int.neg_ne_zero.mpr Int.one_ne_zero)
  · rintro ⟨t, ht⟩
    rw [uuidParseBy_text hreads ht]

/-- **`uuid_parse` is right.**  It accepts five groups of digits with dashes between them and nothing else;
the fields are the values of the groups; UUIDs of two accepted strings match exactly when the strings are
equal but for the case of letters; and a string that is refused leaves the UUID as it was. -/
theorem uuidParse_right (str str' : CStr) (u u' : TaskUuid) :
    ((uuidParse str u).1 = 0 ↔ ∃ t : UuidText, str.chars = t.chars) ∧
    (∀ t : UuidText, str.chars = t.chars → Denotes t (uuidParse str u).2) ∧
    ((uuidParse str u).1 = 0 → (uuidParse str' u').1 = 0 →
      (matchUuids (uuidParse str u).2 (uuidParse str' u').2 = true ↔
        str.chars.map lowerCase = str'.chars.map lowerCase)) ∧
    ((uuidParse str u).1 ≠ 0 → uuidParse str u = (-1, u)) := by
  have hvalue : ∀ {str u} {t : UuidText}, str.chars = t.chars → Denotes t (uuidParse str u).2 := by
    intro str u t ht
    rw [uuidParse, uuidParseBy_text strtoul_readsRow ht]
    exact denotes_value t
  refine ⟨uuidParseBy_iff strtoul_readsRow, fun t => hvalue, ?_, ?_⟩
  · intro hzero hzero'
    obtain ⟨t, ht⟩ := (uuidParseBy_iff strtoul_readsRow).mp hzero
    obtain ⟨t', ht'⟩ := (uuidParseBy_iff strtoul_readsRow).mp hzero'
    rw [matchUuids_iff, ht, ht']
    exact (hvalue ht).eq_iff (hvalue ht')
  · intro hne
    exact uuidParseBy_refused fun hex => hne ((uuidParseBy_iff strtoul_readsRow).mpr hex)

/-! ## 10. On strings of Lean -/

/-- The character of a byte. -/
def charOf (c : UInt8) : Char := Char.ofNat c.toNat

theorem charOf_facts (c : UInt8) : (Task.isXDigit (charOf c) = true ↔ IsHex c) ∧
    (charOf c = '-' ↔ c = 0x2D) ∧ (IsHex c → Task.digitValue (charOf c) = digitOf c) := by
  have hall : ∀ n < 256, (Task.isXDigit (charOf (UInt8.ofNat n)) = true ↔ IsHex (UInt8.ofNat n)) ∧
      (charOf (UInt8.ofNat n) = '-' ↔ UInt8.ofNat n = 0x2D) ∧
      (IsHex (UInt8.ofNat n) → Task.digitValue (charOf (UInt8.ofNat n)) = digitOf (UInt8.ofNat n)) := by
    decide +kernel
  have hc := hall c.toNat c.toNat_lt
  rwa [UInt8.ofNat_toNat] at hc

/-- The two walks. -/
theorem all_uuidCharOk_iff (hlen : s.length = n) (hi : i + n = 36) :
    ((s.map charOf).zipIdx i).all (fun x => Task.uuidCharOk x.2 x.1) = checkLoop (n + 1) i s := by
  induction n generalizing i s with
  | zero =>
    obtain rfl := List.eq_nil_of_length_eq_zero hlen
    obtain rfl : i = 36 := hi
    rfl
  | succ n ih =>
    obtain ⟨c, s, rfl⟩ := List.exists_cons_of_length_eq_add_one hlen
    obtain ⟨hhex, hdash, -⟩ := charOf_facts c
    have hnext := ih (Nat.succ.inj hlen) (i := i + 1) (by omega)
    have hend : ¬(i = 36 ∧ c = 0) := by omega
    rw [List.map_cons, List.zipIdx_cons, List.all_cons, hnext]
    generalize hrest : checkLoop (n + 1) (i + 1) s = b
    rw [checkLoop, List.headD_cons, List.tail_cons, hrest, if_neg hend, Task.uuidCharOk]
    by_cases hi : i = 8 ∨ i = 13 ∨ i = 18 ∨ i = 23
    · rw [if_pos hi, if_pos hi]
      by_cases hc : c = 0x2D
      · rw [if_pos hc, beq_iff_eq.mpr (hdash.mpr hc), Bool.true_and]
      · rw [if_neg hc, beq_eq_false_iff_ne.mpr fun h => hc (hdash.mp h), Bool.false_and]
    · rw [if_neg hi, if_neg hi]
      have hsame : Task.isXDigit (charOf c) = isxdigit c := Bool.eq_iff_iff.mpr (hhex.trans isxdigit_iff.symm)
      rw [hsame]
      cases isxdigit c with
      | true => rfl
      | false => rfl

/-- The number of a row of digits. -/
theorem strtoHex_row (h : ∀ c ∈ g, IsHex c) (hrest : Ends rest) :
    Task.strtoHex ((g ++ rest).map charOf) = hexValue g := by
  have htake : ((g ++ rest).map charOf).takeWhile Task.isXDigit = g.map charOf := by
    have hall : ∀ c ∈ g.map charOf, Task.isXDigit c = true := by
      intro x hx
      obtain ⟨c, hc, rfl⟩ := List.mem_map.mp hx
      exact (charOf_facts c).1.mpr (h c hc)
    rw [List.map_append, List.takeWhile_append_of_pos hall]
    rcases hrest with rfl | hdash
    · exact List.append_nil _
    · obtain ⟨s, rfl⟩ := List.head?_eq_some_iff.mp hdash
      exact List.append_nil _
  have hfold : ∀ (g : List UInt8) (acc : Nat), (∀ c ∈ g, IsHex c) →
      (g.map charOf).foldl (fun acc c => acc * 16 + Task.digitValue c) acc =
        acc * 16 ^ g.length + hexValue g := by
    intro g
    induction g with
    | nil => exact fun acc _ => (Nat.mul_one acc).symm
    | cons c g ih =>
      intro acc h
      obtain ⟨hc, hg⟩ := List.forall_mem_cons.mp h
      rw [List.map_cons, List.foldl_cons, ih _ hg, (charOf_facts c).2.2 hc, hexValue_cons,
        List.length_cons]
      ring
  rw [Task.strtoHex, htake, hfold g 0 h, Nat.zero_mul, Nat.zero_add]

/-- The last two groups, read without the dash. -/
theorem parseClockSeq_chars (t : UuidText) :
    Task.parseClockSeq (t.chars.map charOf) = t.value.clockSeqAndNode := by
  have hkeep : ∀ {n : Nat} (r : HexRow n), (r.chars.map charOf).filter (· != '-') = r.chars.map charOf := by
    intro n r
    refine List.filter_eq_self.mpr fun x hx => ?_
    obtain ⟨c, hc, rfl⟩ := List.mem_map.mp hx
    exact bne_iff_ne.mpr fun heq => ne_of_isHex (r.hex c hc) (by decide) ((charOf_facts c).2.1.mp heq)
  have hdigits : ((t.chars.map charOf).drop 19).filter (· != '-') = t.clock.chars.map charOf := by
    have hdash : charOf 0x2D = '-' := rfl
    rw [← List.map_drop, chars_drop, UuidText.tail, List.map_append, List.map_cons, List.filter_append,
      hkeep, hdash, List.filter_cons_of_neg (by decide), hkeep, ← List.map_append]
    rfl
  have hbyte : ∀ j < 8, Task.strtoHex (((t.clock.chars.map charOf).drop (2 * j)).take 2) = t.clockByte j := by
    intro j hj
    have hpair : 2 * j + 1 < 16 := by omega
    rw [← List.map_drop, ← List.map_take, t.clock.take_two hpair]
    exact strtoHex_row (t.clock.pair hpair) (Or.inl rfl)
  refine List.Vector.toList_injective ?_
  have hlist : (Task.parseClockSeq (t.chars.map charOf)).toList =
      (List.range 8).map fun i => UInt8.ofNat (t.clockByte (7 - i)) := by
    refine List.map_congr_left fun i _ => ?_
    rw [hdigits, hbyte _ (by omega)]
  exact hlist

/-- A text, as a string of Lean. -/
theorem uuidParse_chars (t : UuidText) :
    Task.uuidParse (String.ofList (t.chars.map charOf)) = some t.value := by
  have hlen : (t.chars.map charOf).length = 36 := (List.length_map _).trans (length_chars t)
  have hwalk : (((t.chars.map charOf).zipIdx).all fun x => Task.uuidCharOk x.2 x.1) = true := by
    rw [all_uuidCharOk_iff (length_chars t) (Nat.zero_add 36)]
    exact (checkLoop_iff (length_chars t)).mpr ⟨t, rfl⟩
  have hlow : Task.strtoHex (t.chars.map charOf) = hexValue t.timeLow.chars :=
    strtoHex_row t.timeLow.hex (Or.inr rfl)
  have hmid : Task.strtoHex ((t.chars.map charOf).drop 9) = hexValue t.timeMid.chars := by
    obtain ⟨rest, hrest, hdrop⟩ := drop_timeMid t
    rw [← List.map_drop, hdrop]
    exact strtoHex_row t.timeMid.hex hrest
  have hhi : Task.strtoHex ((t.chars.map charOf).drop 14) = hexValue t.timeHiAndVersion.chars := by
    obtain ⟨rest, hrest, hdrop⟩ := drop_timeHiAndVersion t
    rw [← List.map_drop, hdrop]
    exact strtoHex_row t.timeHiAndVersion.hex hrest
  rw [Task.uuidParse, String.toList_ofList, if_neg (not_not.mpr hlen), hwalk,
    if_neg Bool.true_eq_false_eq_False, hlow, hmid, hhi, parseClockSeq_chars]
  rfl

/-- **On strings of Lean** the function is the one that `Task.Uuid` has. -/
theorem uuidParse_string (str : CStr) (u : TaskUuid) :
    Task.uuidParse (String.ofList (str.chars.map charOf)) =
      if (uuidParse str u).1 = 0 then some (uuidParse str u).2 else none := by
  by_cases hex : ∃ t : UuidText, str.chars = t.chars
  · obtain ⟨t, ht⟩ := hex
    rw [uuidParse, uuidParseBy_text strtoul_readsRow ht, ht, uuidParse_chars]
    rfl
  · rw [uuidParse, uuidParseBy_refused hex, Task.uuidParse, String.toList_ofList]
    by_cases hlen : str.chars.length = 36
    · have hwalk : (((str.chars.map charOf).zipIdx).all fun x => Task.uuidCharOk x.2 x.1) = false := by
        rw [all_uuidCharOk_iff hlen (Nat.zero_add 36)]
        exact Bool.eq_false_iff.mpr fun hpass => hex ((checkLoop_iff hlen).mp hpass)
      rw [List.length_map, if_neg (not_not.mpr hlen), if_pos hwalk]
      rfl
    · rw [List.length_map, if_pos hlen]
      rfl

end AndixOs.Uuid
