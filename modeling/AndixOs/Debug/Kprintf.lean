/-
# Printing

`kprintf` and `kprintf_ex` are two copies of one interpreter of format strings.  One hands its
characters to `mputchar`, the other to `mputchar_ex`, which hands them on to `mputchar`.

The interpreter keeps a list of the addresses of the format that it reads, and of the places of the
digit buffer that it writes and reads; `kprintf_right_iff` says for which formats and arguments it does
what it should.  Two kinds are left out.

* A format that ends in a lone `%`: its `NUL` is taken for the letter of a directive, and the scan goes
  on behind it.
* `%d` of the least number: `num *= -1` leaves it as it is, and its digits come out negative.
-/
import AndixOs.Lib.CString
import AndixOs.Lib.Loop
import AndixOs.Lib.Numeral

namespace AndixOs.Debug

/-! ## 1. The console -/

inductive Port where
  | kputchar
  | earlyPutc
  deriving DecidableEq

/-- Which of the two pointers are set. -/
structure Console where
  kputchar : Bool
  earlyPutc : Bool

/-- The one that `mputchar` takes. -/
def Console.port (con : Console) : Option Port :=
  if con.kputchar then some .kputchar else if con.earlyPutc then some .earlyPutc else none

/-- `mputchar`: a line feed is followed by a carriage return. -/
def mputchar (con : Console) (c : UInt8) : List (Port × UInt8) :=
  match con.port with
  | none => []
  | some p => if c = 0x0A then [(p, c), (p, 0x0D)] else [(p, c)]

/-- `mputchar_ex`. -/
def mputcharEx (con : Console) (c : UInt8) : List (Port × UInt8) := mputchar con c

/-! ## 2. The directives -/

inductive Directive where
  | percent
  | str
  | chr
  | dec
  | hex (upper : Bool)
  | ptr
  | other (c : UInt8)
  deriving DecidableEq

/-- The `switch` on the character behind a `%`. -/
def directiveOf (c : UInt8) : Directive :=
  if c = 0x25 then .percent
  else if c = 0x73 then .str
  else if c = 0x63 then .chr
  else if c = 0x64 ∨ c = 0x69 then .dec
  else if c = 0x78 then .hex false
  else if c = 0x58 then .hex true
  else if c = 0x70 then .ptr
  else .other c

/-- Whether the directive comes with a `va_arg`. -/
def Directive.takesArg : Directive → Bool
  | .percent => false
  | .other _ => false
  | _ => true

/-- `(num >> 28) + ((num >> 28) < 10 ? '0' : 'a' - 10)`, or the same with `'A'`. -/
def hexDigitChar (upper : Bool) (d : UInt32) : UInt8 :=
  (d + if d < 10 then 0x30 else (if upper then 0x41 else 0x61) - 10).toUInt8

/-- The first loop of `%x`, which passes the zeros in front; so many digits are left, `8 - i`. -/
def hexSkip : Nat → UInt32 → Nat × UInt32
  | 0, num => (0, num)
  | k + 1, num => if num >>> 28 = 0 then hexSkip k (num <<< 4) else (k + 1, num)

/-- The second one. -/
def hexOut (upper : Bool) : Nat → UInt32 → List UInt8
  | 0, _ => []
  | k + 1, num => hexDigitChar upper (num >>> 28) :: hexOut upper k (num <<< 4)

/-- `%x` and `%X`. -/
def hexChars (upper : Bool) (num : UInt32) : List UInt8 :=
  if num = 0 then [0x30]
  else
    let r := hexSkip 8 num
    hexOut upper r.1 r.2

/-- `%p`. -/
def ptrChars (num : UInt32) : List UInt8 := 0x30 :: 0x78 :: hexOut false 8 num

/-- A word as `int`. -/
def asInt (v : UInt32) : Int := v.toBitVec.toInt

/-- The loop that fills the digit buffer: `i`, `buf[i]` to `buf[10]`, and the places written so far.
`none`: it goes on. -/
def decDigits : Nat → Int → Int → List UInt8 → List Int → Option (Int × List UInt8 × List Int)
  | 0, _, _, _, _ => none
  | rounds + 1, num, i, cells, idx =>
    if num = 0 then some (i, cells, idx)
    else
      decDigits rounds (num.tdiv 10) (i - 1) (UInt8.ofInt (num.tmod 10 + 0x30) :: cells)
        (idx ++ [i - 1])

/-- `%d` and `%i`: the characters, and the places of the buffer that are written and read.  A number
of 32 bits takes less than 32 rounds. -/
def decChars (v : UInt32) : Option (List UInt8 × List Int) :=
  let num := asInt v
  if num = 0 then some ([0x30], [])
  else
    let sign := if num < 0 then [0x2D] else []
    let num := if num < 0 then (num * -1).bmod 4294967296 else num
    (decDigits 32 num 11 [] []).map fun (i, cells, idx) =>
      (sign ++ cells.take (11 - i).toNat,
        idx ++ (List.range (11 - i).toNat).map fun j : Nat => i + (j : Int))

/-- What a directive prints, and the places of its buffer.  `none`: it comes to no end. -/
def printed (m : Mem) (d : Directive) (v : UInt32) : Option (List UInt8 × List Int) :=
  match d with
  | .percent => some ([0x25], [])
  | .str => (strAt m 4294967296 v.toNat).map (·, [])
  | .chr => some ([v.toUInt8], [])
  | .dec => decChars v
  | .hex upper => some (hexChars upper v, [])
  | .ptr => some (ptrChars v, [])
  | .other c => some ([0x25, c], [])

/-! ## 3. The interpreter -/

/-- The variables of `kprintf`, what it printed, the addresses of the format that it read, and the
places of the digit buffer that it used. -/
structure PrintState where
  s : Nat
  va : List UInt32
  out : List (Port × UInt8)
  reads : List Nat
  idx : List Int

/-- A round of the loop over the format. -/
def printfRound (put : UInt8 → List (Port × UInt8)) (m : Mem) (st : PrintState) :
    PrintState ⊕ PrintState :=
  let c := m st.s
  if c = 0 then .inr { st with reads := st.reads ++ [st.s] }
  else if c = 0x25 then
    let d := directiveOf (m (st.s + 1))
    match printed m d (st.va.headD 0) with
    | none => .inl st
    | some (chars, idx) => .inl {
        s := st.s + 2
        va := if d.takesArg then st.va.tail else st.va
        out := st.out ++ chars.flatMap put
        reads := st.reads ++ [st.s, st.s + 1]
        idx := st.idx ++ idx }
  else .inl { st with s := st.s + 1, out := st.out ++ put c, reads := st.reads ++ [st.s] }

/-- `kprintf` ends in the state `r`. -/
def Kprintf (con : Console) (m : Mem) (s : Nat) (va : List UInt32) (r : PrintState) : Prop :=
  Ends (printfRound (mputchar con) m) ⟨s, va, [], [], []⟩ r

/-- `kprintf_ex` ends in the state `r`. -/
def KprintfEx (con : Console) (m : Mem) (s : Nat) (va : List UInt32) (r : PrintState) : Prop :=
  Ends (printfRound (mputcharEx con) m) ⟨s, va, [], [], []⟩ r

/-! ## 4. What should be printed -/

/-- A piece of a format. -/
inductive Item where
  | lit (c : UInt8)
  | dir (d : Directive)
  | lone
  deriving DecidableEq

def Item.takesArg : Item → Bool
  | .dir d => d.takesArg
  | _ => false

/-- The pieces of a format. -/
def parse : List UInt8 → List Item
  | [] => []
  | [c] => [if c = 0x25 then .lone else .lit c]
  | c :: d :: cs => if c = 0x25 then .dir (directiveOf d) :: parse cs else .lit c :: parse (d :: cs)

/-- The pieces with the arguments that they take. -/
def withArgs : List Item → List UInt32 → List (Item × UInt32)
  | [], _ => []
  | i :: is, va => (i, va.headD 0) :: withArgs is (if i.takesArg then va.tail else va)

/-- The strings that `%s` asks for are there. -/
def Strings (m : Mem) (ps : List (Item × UInt32)) : Prop :=
  ∀ p ∈ ps, p.1 = .dir .str → (strAt m 4294967296 p.2.toNat).isSome = true

/-- The arguments are of the types that the pieces ask for: there are enough of them, and under `%s`
stand strings. -/
structure Matches (m : Mem) (is : List Item) (va : List UInt32) : Prop where
  enough : (is.filter Item.takesArg).length ≤ va.length
  strings : Strings m (withArgs is va)

/-- The canonical decimal numeral. -/
def decimal (n : Int) : List UInt8 :=
  (if n < 0 then [0x2D] else []) ++ (numeral 10 n.natAbs).map fun d => UInt8.ofNat (0x30 + d)

/-- A hexadecimal digit. -/
def hexLetter (upper : Bool) (d : Nat) : UInt8 :=
  UInt8.ofNat (if d < 10 then 0x30 + d else (if upper then 0x41 else 0x61) + (d - 10))

/-- The canonical hexadecimal numeral. -/
def hexadecimal (upper : Bool) (n : Nat) : List UInt8 := (numeral 16 n).map (hexLetter upper)

/-- What a piece should print. -/
def render (m : Mem) : Item × UInt32 → List UInt8
  | (.lit c, _) => [c]
  | (.dir .percent, _) => [0x25]
  | (.dir .str, v) => (strAt m 4294967296 v.toNat).getD []
  | (.dir .chr, v) => [v.toUInt8]
  | (.dir .dec, v) => decimal (asInt v)
  | (.dir (.hex upper), v) => hexadecimal upper v.toNat
  | (.dir .ptr, v) => ptrChars v
  | (.dir (.other c), _) => [0x25, c]
  | (.lone, _) => [0x25]

/-- The two functions do what they should with a format of the characters `cs`. -/
def PrintsRight (con : Console) (m : Mem) (s : Nat) (cs : List UInt8) (va : List UInt32) : Prop :=
  ∃ r rEx, Kprintf con m s va r ∧ KprintfEx con m s va rEx ∧ rEx.out = r.out ∧
    r.out = ((withArgs (parse cs) va).flatMap (render m)).flatMap (mputchar con) ∧
    ∀ t ∈ [r, rEx], (∀ a ∈ t.reads, s ≤ a ∧ a ≤ s + cs.length) ∧ ∀ i ∈ t.idx, 0 ≤ i ∧ i < 11

/-! ## 5. The numerals -/

variable {con : Console} {m : Mem} {s k n : Nat} {num v : UInt32} {upper : Bool} {va : List UInt32}
  {cs chars : List UInt8} {idx : List Int}

/-- What the `k` digits at the top of a word stand for. -/
def topValue (k : Nat) (num : UInt32) : Nat := num.toNat / 16 ^ (8 - k)

/-- The digits that `hexOut` takes off the top of a word. -/
def hexDigits : Nat → UInt32 → List Nat
  | 0, _ => []
  | k + 1, num => (num >>> 28).toNat :: hexDigits k (num <<< 4)

theorem toNat_shiftRight_28 (num : UInt32) : (num >>> 28).toNat = num.toNat / 2 ^ 28 := by
  rw [UInt32.toNat_shiftRight, Nat.shiftRight_eq_div_pow]
  rfl

theorem toNat_shiftLeft_4 (num : UInt32) : (num <<< 4).toNat = num.toNat * 2 ^ 4 % 2 ^ 32 := by
  rw [UInt32.toNat_shiftLeft, Nat.shiftLeft_eq]
  rfl

theorem hexDigitChar_eq {d : UInt32} (h : d.toNat < 16) :
    hexDigitChar upper d = hexLetter upper d.toNat := by
  obtain ⟨n, hn, rfl⟩ : ∃ n, n < 16 ∧ d = UInt32.ofNat n :=
    ⟨d.toNat, h, (UInt32.ofNat_toNat).symm⟩
  have hall : ∀ upper : Bool, ∀ n < 16,
      hexDigitChar upper (UInt32.ofNat n) = hexLetter upper (UInt32.ofNat n).toNat := by decide
  exact hall upper n hn

theorem shiftRight_28_lt (num : UInt32) : (num >>> 28).toNat < 16 := by
  have hlt := num.toNat_lt
  rw [toNat_shiftRight_28]
  omega

theorem hexOut_eq (upper : Bool) : ∀ (k : Nat) (num : UInt32),
    hexOut upper k num = (hexDigits k num).map (hexLetter upper)
  | 0, _ => rfl
  | k + 1, num => by
    rw [hexOut, hexDigits, List.map_cons, hexDigitChar_eq (shiftRight_28_lt num), hexOut_eq]

theorem length_hexDigits : ∀ (k : Nat) (num : UInt32), (hexDigits k num).length = k
  | 0, _ => rfl
  | k + 1, num => by rw [hexDigits, List.length_cons, length_hexDigits]

theorem hexDigits_lt : ∀ {k : Nat} {num : UInt32}, ∀ d ∈ hexDigits k num, d < 16
  | 0, _ => nofun
  | _ + 1, num => List.forall_mem_cons.mpr ⟨shiftRight_28_lt num, hexDigits_lt⟩

/-- The word moved by a digit: the top digit, and what stands behind it. -/
theorem topValue_succ (hk : k < 8) (num : UInt32) :
    topValue (k + 1) num = (num >>> 28).toNat * 16 ^ k + topValue k (num <<< 4) := by
  have hpow : 16 ^ (8 - k) = 16 ^ (8 - (k + 1)) * 16 := by
    rw [← Nat.pow_succ]
    congr 1
    omega
  have hsplit : 2 ^ 28 = 16 ^ k * 16 ^ (8 - (k + 1)) := by
    have hexp : k + (8 - (k + 1)) = 7 := by omega
    rw [← Nat.pow_add, hexp]
    rfl
  have hmove : num.toNat * 2 ^ 4 % 2 ^ 32 = num.toNat % 2 ^ 28 * 16 := by omega
  have hmod : num.toNat = num.toNat % 2 ^ 28 + num.toNat / 2 ^ 28 * 16 ^ k * 16 ^ (8 - (k + 1)) := by
    rw [Nat.mul_assoc, ← hsplit]
    omega
  rw [topValue, topValue, toNat_shiftRight_28, toNat_shiftLeft_4, hmove, hpow,
    Nat.mul_div_mul_right _ _ (by decide : 0 < 16)]
  conv_lhs => rw [hmod]
  rw [Nat.add_mul_div_right _ _ (Nat.pow_pos (by decide)), Nat.add_comm]

/-- What they stand for. -/
theorem ofDigits_hexDigits : ∀ {k : Nat} {num : UInt32}, k ≤ 8 →
    Nat.ofDigits 16 (hexDigits k num).reverse = topValue k num
  | 0, num, _ => (Nat.div_eq_of_lt num.toNat_lt).symm
  | k + 1, num, hk => by
    rw [hexDigits, ofDigits_reverse_cons, length_hexDigits, ofDigits_hexDigits (Nat.le_of_succ_le hk),
      topValue_succ hk]

/-- **The first loop of `%x`** comes to a digit that is not 0, and loses nothing. -/
theorem hexSkip_spec : ∀ {k : Nat} {num : UInt32}, k ≤ 8 → topValue k num ≠ 0 →
    ∃ k' num', hexSkip k num = (k' + 1, num') ∧ k' < 8 ∧ (num' >>> 28).toNat ≠ 0 ∧
      topValue (k' + 1) num' = topValue k num
  | 0, num, _, hne => absurd (Nat.div_eq_of_lt num.toNat_lt) hne
  | k + 1, num, hk, hne => by
    rw [hexSkip]
    by_cases hzero : num >>> 28 = 0
    · have htop : topValue (k + 1) num = topValue k (num <<< 4) := by
        rw [topValue_succ hk, hzero, UInt32.toNat_zero, Nat.zero_mul, Nat.zero_add]
      rw [if_pos hzero, htop]
      exact hexSkip_spec (Nat.le_of_succ_le hk) (htop ▸ hne)
    · rw [if_neg hzero]
      exact ⟨k, num, rfl, hk, fun h => hzero (UInt32.toNat_inj.mp h), rfl⟩

/-- **`%x` prints the canonical numeral.** -/
theorem hexChars_eq (upper : Bool) (num : UInt32) : hexChars upper num = hexadecimal upper num.toNat := by
  rw [hexChars, hexadecimal]
  by_cases hzero : num = 0
  · subst hzero
    rfl
  have hvalue : topValue 8 num = num.toNat := Nat.div_one _
  have hne : num.toNat ≠ 0 := fun h => hzero (UInt32.toNat_inj.mp h)
  obtain ⟨k, num', hskip, hk, htop, hsame⟩ := hexSkip_spec (Nat.le_refl 8) (hvalue.symm ▸ hne)
  have hnumeral : numeral 16 num.toNat = hexDigits (k + 1) num' := by
    refine numeral_eq_of (by decide) hexDigits_lt ?_ ?_ hne
    · intro d hd
      obtain rfl := Option.some.inj hd
      exact htop
    · rw [ofDigits_hexDigits hk, hsame, hvalue]
  rw [if_neg hzero, hskip, hexOut_eq, hnumeral]

theorem ofInt_natCast (n : Nat) : UInt8.ofInt n = UInt8.ofNat n := by
  have hcast : ((n : Int) % 2 ^ 8).toNat = n % 256 := by omega
  rw [UInt8.ofInt, hcast]
  exact UInt8.ofNat_mod_size

/-- **The loop that fills the digit buffer** writes the digits of a number, from the place below `i`
down. -/
theorem decDigits_eq : ∀ {rounds n : Nat} (i : Int) (cells : List UInt8) (idx : List Int),
    n < 10 ^ rounds → ∃ idx',
      decDigits (rounds + 1) n i cells idx = some (i - (Nat.digits 10 n).length,
        ((Nat.digits 10 n).reverse.map fun d => UInt8.ofNat (0x30 + d)) ++ cells, idx ++ idx') ∧
      ∀ x ∈ idx', i - (Nat.digits 10 n).length ≤ x ∧ x < i
  | rounds, 0, i, cells, idx, _ => ⟨[], by simp [decDigits], nofun⟩
  | 0, n + 1, _, _, _, h => absurd h (by simp)
  | rounds + 1, n + 1, i, cells, idx, h => by
    have hdiv : (n + 1) / 10 < 10 ^ rounds := by
      rw [Nat.div_lt_iff_lt_mul (by decide), ← Nat.pow_succ]
      exact h
    have hdigits : Nat.digits 10 (n + 1) = (n + 1) % 10 :: Nat.digits 10 ((n + 1) / 10) :=
      Nat.digits_def' (by decide) (Nat.succ_pos n)
    have hchar : UInt8.ofInt (((n + 1 : Nat) : Int).tmod 10 + 0x30) =
        UInt8.ofNat (0x30 + (n + 1) % 10) := by
      rw [← ofInt_natCast, Nat.add_comm 0x30]
      rfl
    have hround : decDigits (rounds + 1 + 1) (n + 1 : Nat) i cells idx =
        decDigits (rounds + 1) ((n + 1) / 10 : Nat) (i - 1)
          (UInt8.ofNat (0x30 + (n + 1) % 10) :: cells) (idx ++ [i - 1]) := by
      rw [decDigits, if_neg (Int.natCast_ne_zero.mpr (Nat.succ_ne_zero n)), hchar]
      rfl
    obtain ⟨idx', hrun, hidx⟩ := decDigits_eq (i - 1)
      (UInt8.ofNat (0x30 + (n + 1) % 10) :: cells) (idx ++ [i - 1]) hdiv
    rw [hround, hrun, hdigits]
    refine ⟨(i - 1) :: idx', ?_, ?_⟩
    · simp only [List.length_cons, List.reverse_cons, List.map_append, List.map_cons, List.map_nil,
        List.append_assoc, List.singleton_append, Option.some.injEq, Prod.mk.injEq, and_true]
      omega
    · rw [List.length_cons]
      intro x hx
      rcases List.mem_cons.mp hx with rfl | hx
      · omega
      · have hbound := hidx x hx
        omega

/-- The value that has no opposite. -/
def intMin : UInt32 := 0x80000000

theorem asInt_bounds (v : UInt32) : -2147483648 ≤ asInt v ∧ asInt v < 2147483648 :=
  ⟨BitVec.le_toInt v.toBitVec, BitVec.toInt_lt⟩

theorem asInt_eq_min_iff : asInt v = -2147483648 ↔ v = intMin := by
  have hmin : asInt intMin = -2147483648 := rfl
  rw [← hmin, asInt, asInt, BitVec.toInt_inj, UInt32.toBitVec_inj]

/-- What `%d` prints of a number that is not 0, and of which the sign is off. -/
theorem decDigits_buffer (hn : n < 10 ^ 10) : ∃ idx i cells, decDigits 32 n 11 [] [] = some (i, cells, idx) ∧
    cells.take (11 - i).toNat = (Nat.digits 10 n).reverse.map (fun d => UInt8.ofNat (0x30 + d)) ∧
      1 ≤ i ∧ ∀ x ∈ idx, 1 ≤ x ∧ x < 11 := by
  have hlen := (Nat.digits_length_le_iff (by decide) n).mpr hn
  have hrounds : n < 10 ^ 31 := hn.trans (by decide)
  obtain ⟨idx, hrun, hidx⟩ := decDigits_eq 11 [] [] hrounds
  refine ⟨_, _, _, hrun, ?_, by omega, ?_⟩
  · rw [List.append_nil]
    refine List.take_of_length_le ?_
    rw [List.length_map, List.length_reverse]
    omega
  · intro x hx
    have hbound := hidx x hx
    omega

/-- **`%d` prints the canonical numeral** of every number but the least, and stays in the buffer. -/
theorem decChars_eq (hv : v ≠ intMin) : ∃ idx, decChars v = some (decimal (asInt v), idx) ∧
    ∀ i ∈ idx, 0 ≤ i ∧ i < 11 := by
  obtain ⟨hlo, hhi⟩ := asInt_bounds v
  have hmin : asInt v ≠ -2147483648 := fun h => hv (asInt_eq_min_iff.mp h)
  by_cases hzero : asInt v = 0
  · refine ⟨[], ?_, nofun⟩
    rw [decChars, hzero]
    rfl
  have hne : (asInt v).natAbs ≠ 0 := Int.natAbs_ne_zero.mpr hzero
  have habs : (if asInt v < 0 then (asInt v * -1).bmod 4294967296 else asInt v) =
      ((asInt v).natAbs : Int) := by
    by_cases hneg : asInt v < 0
    · rw [if_pos hneg, Int.bmod_eq_of_le (by omega) (by omega)]
      omega
    · rw [if_neg hneg]
      omega
  obtain ⟨idx, i, cells, hrun, hcells, hi, hidx⟩ := decDigits_buffer (n := (asInt v).natAbs) (by omega)
  refine ⟨idx ++ (List.range (11 - i).toNat).map fun j : Nat => i + (j : Int), ?_, ?_⟩
  · simp only [decChars, if_neg hzero, habs, hrun, Option.map_some, hcells, decimal,
      numeral_of_ne_zero hne]
  · intro x hx
    rcases List.mem_append.mp hx with hx | hx
    · have hbound := hidx x hx
      omega
    · obtain ⟨j, hj, rfl⟩ := List.mem_map.mp hx
      have hlt := List.mem_range.mp hj
      omega

/-! ## 6. The run -/

/-- What a piece prints. -/
def said (m : Mem) : Item × UInt32 → List UInt8
  | (.lit c, _) => [c]
  | (.dir d, v) => ((printed m d v).map Prod.fst).getD []
  | (.lone, _) => []

/-- The least number under `%d`. -/
def IsMin (p : Item × UInt32) : Prop := p = (.dir .dec, intMin)

instance (p : Item × UInt32) : Decidable (IsMin p) := inferInstanceAs (Decidable (_ = _))

/-- A directive with an argument of its type comes to an end, within its buffer. -/
theorem printed_isSome {d : Directive}
    (hstr : d = .str → (strAt m 4294967296 v.toNat).isSome = true) :
    ∃ idx, printed m d v = some (said m (.dir d, v), idx) ∧ ∀ i ∈ idx, 0 ≤ i ∧ i < 11 := by
  cases d with
  | str =>
    obtain ⟨cs, hcs⟩ := Option.isSome_iff_exists.mp (hstr rfl)
    refine ⟨[], ?_, nofun⟩
    simp only [printed, said, hcs, Option.map_some, Option.getD_some]
  | dec =>
    by_cases hv : v = intMin
    · subst hv
      exact ⟨_, rfl, by decide⟩
    · obtain ⟨idx, hrun, hidx⟩ := decChars_eq hv
      refine ⟨idx, ?_, hidx⟩
      simp only [printed, said, hrun, Option.map_some, Option.getD_some]
  | percent => exact ⟨[], rfl, nofun⟩
  | chr => exact ⟨[], rfl, nofun⟩
  | hex upper => exact ⟨[], rfl, nofun⟩
  | ptr => exact ⟨[], rfl, nofun⟩
  | other c => exact ⟨[], rfl, nofun⟩

/-- **One piece** prints what it should, but for the least number. -/
theorem said_eq_render {p : Item × UInt32} (hlone : p.1 ≠ .lone) (hmin : ¬ IsMin p) :
    said m p = render m p := by
  obtain ⟨i, v⟩ := p
  cases i with
  | lit c => rfl
  | lone => exact absurd rfl hlone
  | dir d =>
    cases d with
    | percent => rfl
    | chr => rfl
    | ptr => rfl
    | other c => rfl
    | hex upper => exact hexChars_eq upper v
    | str =>
      simp only [said, render, printed]
      cases strAt m 4294967296 v.toNat <;> rfl
    | dec =>
      have hv : v ≠ intMin := by
        rintro rfl
        exact hmin rfl
      obtain ⟨idx, hrun, -⟩ := decChars_eq hv
      simp only [said, render, printed, hrun, Option.map_some, Option.getD_some]

variable {put : UInt8 → List (Port × UInt8)} {st r : PrintState}

/-- The round at the end. -/
theorem printfRound_nul (h : m st.s = 0) :
    printfRound put m st = .inr { st with reads := st.reads ++ [st.s] } := if_pos h

/-- The round at a character. -/
theorem printfRound_lit {c : UInt8} (hc : m st.s = c) (hnul : c ≠ 0) (hp : c ≠ 0x25) :
    printfRound put m st =
      .inl { st with s := st.s + 1, out := st.out ++ put c, reads := st.reads ++ [st.s] } := by
  simp only [printfRound, hc, if_neg hnul, if_neg hp]

/-- The round at a directive. -/
theorem printfRound_dir {d : UInt8} (hp : m st.s = 0x25) (hd : m (st.s + 1) = d)
    (hrun : printed m (directiveOf d) (st.va.headD 0) = some (chars, idx)) :
    printfRound put m st = .inl {
      s := st.s + 2
      va := if (directiveOf d).takesArg then st.va.tail else st.va
      out := st.out ++ chars.flatMap put
      reads := st.reads ++ [st.s, st.s + 1]
      idx := st.idx ++ idx } := by
  simp only [printfRound, hp, hd, hrun]
  rfl

/-- The round at a lone `%`: the `NUL` is printed, and passed. -/
theorem printfRound_lone (put : UInt8 → List (Port × UInt8)) (hp : m st.s = 0x25) (hd : m (st.s + 1) = 0) :
    printfRound put m st = .inl { st with
      s := st.s + 2
      out := st.out ++ [0x25, 0].flatMap put
      reads := st.reads ++ [st.s, st.s + 1] } := by
  rw [printfRound_dir hp hd rfl, List.append_nil]
  rfl

/-- What was read stays read, and the loop looks at the next character before it ends. -/
theorem reads_of_ends (h : Ends (printfRound put m) st r) :
    ∀ a, a ∈ st.reads ∨ a = st.s → a ∈ r.reads := by
  obtain ⟨fuel, hrun⟩ := h
  induction fuel generalizing st with
  | zero => exact nomatch hrun
  | succ fuel ih =>
    intro a ha
    have hmem : ∀ {l : List Nat}, st.s ∈ l → a ∈ st.reads ++ l := by
      intro l hl
      rcases ha with ha | rfl
      · exact List.mem_append_left _ ha
      · exact List.mem_append_right _ hl
    have hround : (∃ st', printfRound put m st = .inl st' ∧ (a ∈ st'.reads ∨ a = st'.s)) ∨
        ∃ r', printfRound put m st = .inr r' ∧ a ∈ r'.reads := by
      unfold printfRound
      dsimp only
      split
      · exact Or.inr ⟨_, rfl, hmem List.mem_cons_self⟩
      split
      · split
        · exact Or.inl ⟨_, rfl, ha⟩
        · exact Or.inl ⟨_, rfl, Or.inl (hmem List.mem_cons_self)⟩
      · exact Or.inl ⟨_, rfl, Or.inl (hmem List.mem_cons_self)⟩
    rw [runLoop] at hrun
    rcases hround with ⟨st', heq, ha'⟩ | ⟨r', heq, ha'⟩
    · rw [heq] at hrun
      exact ih hrun a ha'
    · rw [heq] at hrun
      exact Option.some.inj hrun ▸ ha'

/-- One round, over the piece `i` of the format `cs`, with `rest` behind it. -/
structure PieceStep (m : Mem) (put : UInt8 → List (Port × UInt8)) (cs : List UInt8) (st : PrintState)
    (i : Item) (rest : List UInt8) (st' : PrintState) : Prop where
  round : printfRound put m st = .inl st'
  parse_eq : parse cs = i :: parse rest
  not_lone : i ≠ .lone
  str : StrIs m st'.s rest
  ends : st'.s + rest.length = st.s + cs.length
  shorter : rest.length < cs.length
  va : st'.va = if i.takesArg then st.va.tail else st.va
  out : st'.out = st.out ++ (said m (i, st.va.headD 0)).flatMap put
  reads : ∀ a ∈ st'.reads, a ∈ st.reads ∨ (st.s ≤ a ∧ a ≤ st.s + cs.length)
  idx : ∀ j ∈ st'.idx, j ∈ st.idx ∨ (0 ≤ j ∧ j < 11)

/-- The round over a character that is no `%`. -/
theorem pieceStep_lit (put : UInt8 → List (Port × UInt8)) {c : UInt8} {rest : List UInt8}
    (h : StrIs m st.s (c :: rest)) (hp : c ≠ 0x25) :
    ∃ st', PieceStep m put (c :: rest) st (.lit c) rest st' := by
  obtain ⟨hc, hrest⟩ := h.cons
  have hnul : c ≠ 0 := fun h0 => strAt_nul h (h0 ▸ List.mem_cons_self)
  refine ⟨_, ⟨printfRound_lit hc hnul hp, ?_, nofun, hrest, ?_, ?_, rfl, ?_, ?_, fun j hj => Or.inl hj⟩⟩
  · cases rest with
    | nil => simp only [parse, if_neg hp]
    | cons d rest => rw [parse, if_neg hp]
  · simp only [List.length_cons]
    omega
  · exact Nat.lt_succ_self _
  · simp only [said, List.flatMap_singleton]
  · intro a ha
    rcases List.mem_append.mp ha with ha | ha
    · exact Or.inl ha
    · obtain rfl := List.mem_singleton.mp ha
      exact Or.inr ⟨Nat.le_refl _, Nat.le_add_right _ _⟩

/-- The round over a directive. -/
theorem pieceStep_dir (put : UInt8 → List (Port × UInt8)) {d : UInt8} {rest : List UInt8}
    (h : StrIs m st.s (0x25 :: d :: rest))
    (hstr : directiveOf d = .str → (strAt m 4294967296 (st.va.headD 0).toNat).isSome = true) :
    ∃ st', PieceStep m put (0x25 :: d :: rest) st (.dir (directiveOf d)) rest st' := by
  obtain ⟨hp, hd⟩ := h.cons
  obtain ⟨hd, hrest⟩ := hd.cons
  obtain ⟨idx, hrun, hidx⟩ := printed_isSome hstr
  refine ⟨_, ⟨printfRound_dir hp hd hrun, ?_, nofun, hrest, ?_, ?_, rfl, rfl, ?_, ?_⟩⟩
  · rw [parse, if_pos rfl]
  · simp only [List.length_cons]
    omega
  · simp only [List.length_cons]
    omega
  · intro a ha
    rw [List.length_cons]
    rcases List.mem_append.mp ha with ha | ha
    · exact Or.inl ha
    · rcases List.mem_pair.mp ha with rfl | rfl <;> omega
  · intro j hj
    rcases List.mem_append.mp hj with hj | hj
    · exact Or.inl hj
    · exact Or.inr (hidx j hj)

/-- **One round**, over any piece but a lone `%`. -/
theorem exists_pieceStep (put : UInt8 → List (Port × UInt8)) (h : StrIs m st.s cs) (hne : cs ≠ [])
    (hlone : cs ≠ [0x25]) (hstr : Strings m (withArgs (parse cs) st.va)) : ∃ i rest st', PieceStep m put cs st i rest st' := by
  obtain ⟨c, rest, rfl⟩ := List.exists_cons_of_ne_nil hne
  by_cases hp : c = 0x25
  · subst hp
    cases rest with
    | nil => exact absurd rfl hlone
    | cons d rest =>
      obtain ⟨st', hst⟩ := pieceStep_dir put h fun hd => by
        refine hstr (.dir (directiveOf d), st.va.headD 0) ?_ (congrArg Item.dir hd)
        rw [parse, if_pos rfl, withArgs]
        exact List.mem_cons_self
      exact ⟨_, _, st', hst⟩
  · obtain ⟨st', hst⟩ := pieceStep_lit put h hp
    exact ⟨_, _, st', hst⟩

/-- The pieces behind one, with their arguments. -/
theorem PieceStep.withArgs_eq {i : Item} {rest : List UInt8} {st' : PrintState}
    (h : PieceStep m put cs st i rest st') :
    withArgs (parse cs) st.va = (i, st.va.headD 0) :: withArgs (parse rest) st'.va := by
  rw [h.parse_eq, withArgs, h.va]

theorem PieceStep.strings {i : Item} {rest : List UInt8} {st' : PrintState}
    (h : PieceStep m put cs st i rest st') (hstr : Strings m (withArgs (parse cs) st.va)) :
    Strings m (withArgs (parse rest) st'.va) := by
  rw [h.withArgs_eq] at hstr
  exact fun p hp => hstr p (List.mem_cons_of_mem _ hp)

/-- **A run** over a format without a lone `%`. -/
theorem ends_printf (put : UInt8 → List (Port × UInt8)) {N : Nat} : ∀ {cs : List UInt8} (st : PrintState), cs.length < N →
    StrIs m st.s cs → Item.lone ∉ parse cs → Strings m (withArgs (parse cs) st.va) →
      ∃ r, Ends (printfRound put m) st r ∧
        r.out = st.out ++ ((withArgs (parse cs) st.va).flatMap (said m)).flatMap put ∧
        (∀ a ∈ r.reads, a ∈ st.reads ∨ (st.s ≤ a ∧ a ≤ st.s + cs.length)) ∧
        ∀ j ∈ r.idx, j ∈ st.idx ∨ (0 ≤ j ∧ j < 11) := by
  induction N with
  | zero => exact fun _ hlen => absurd hlen (Nat.not_lt_zero _)
  | succ N ih =>
    intro cs st hlen h hlone hstr
    by_cases hnil : cs = []
    · subst hnil
      refine ⟨_, ends_of_inr (printfRound_nul h.nul), (List.append_nil _).symm, ?_, fun j => Or.inl⟩
      intro a ha
      rcases List.mem_append.mp ha with ha | ha
      · exact Or.inl ha
      · obtain rfl := List.mem_singleton.mp ha
        exact Or.inr ⟨Nat.le_refl _, Nat.le_refl _⟩
    have hne : cs ≠ [0x25] := by
      rintro rfl
      exact hlone (by decide)
    obtain ⟨i, rest, st', hst⟩ := exists_pieceStep put h hnil hne hstr
    have hshort := hst.shorter
    have hend := hst.ends
    rw [hst.parse_eq] at hlone
    obtain ⟨r, hrun, hout, hreads, hidx⟩ := ih st' (by omega) hst.str
      (fun hmem => hlone (List.mem_cons_of_mem _ hmem)) (hst.strings hstr)
    refine ⟨r, ends_of_inl hst.round hrun, ?_, ?_, ?_⟩
    · rw [hout, hst.out, hst.withArgs_eq, List.flatMap_cons, List.flatMap_append, List.append_assoc]
    · intro a ha
      rcases hreads a ha with ha | ha
      · exact hst.reads a ha
      · exact Or.inr ⟨by omega, by omega⟩
    · intro j hj
      rcases hidx j hj with hj | hj
      · exact hst.idx j hj
      · exact Or.inr hj

/-- **A run over a lone `%`** that ends has read on behind the `NUL`. -/
theorem reads_of_lone {N : Nat} : ∀ {cs : List UInt8} (st : PrintState), cs.length < N →
    StrIs m st.s cs → Item.lone ∈ parse cs → Strings m (withArgs (parse cs) st.va) →
      Ends (printfRound put m) st r → st.s + cs.length + 1 ∈ r.reads := by
  induction N with
  | zero => exact fun _ hlen => absurd hlen (Nat.not_lt_zero _)
  | succ N ih =>
    intro cs st hlen h hlone hstr hends
    by_cases hnil : cs = []
    · subst hnil
      exact absurd hlone List.not_mem_nil
    by_cases hone : cs = [0x25]
    · subst hone
      have hround := (ends_inl_iff (printfRound_lone put h.cons.1 h.nul)).mp hends
      exact reads_of_ends hround _ (Or.inr rfl)
    obtain ⟨i, rest, st', hst⟩ := exists_pieceStep put h hnil hone hstr
    have hshort := hst.shorter
    rw [hst.parse_eq] at hlone
    have htail := (List.mem_cons.mp hlone).resolve_left hst.not_lone.symm
    rw [← hst.ends]
    exact ih st' (by omega) hst.str htail (hst.strings hstr) ((ends_inl_iff hst.round).mp hends)

/-! ## 7. When the output is right -/

/-- Two ways to write each element of a list, of one length: the whole is the same only if each
element is. -/
theorem flatMap_eq_iff {α β : Type} {f g : α → List β} : ∀ {l : List α},
    (∀ x ∈ l, (f x).length = (g x).length) → (l.flatMap f = l.flatMap g ↔ ∀ x ∈ l, f x = g x)
  | [], _ => iff_of_true rfl (List.forall_mem_nil _)
  | x :: l, h => by
    obtain ⟨hx, hl⟩ := List.forall_mem_cons.mp h
    rw [List.flatMap_cons, List.flatMap_cons, List.forall_mem_cons, ← flatMap_eq_iff hl]
    exact ⟨fun heq => List.append_inj heq hx, fun ⟨hhead, htail⟩ => by rw [hhead, htail]⟩

/-- The least number comes out as `-./,),(-*,(`. -/
theorem said_min (m : Mem) : said m (.dir .dec, intMin) =
    [0x2D, 0x2E, 0x2F, 0x2C, 0x29, 0x2C, 0x28, 0x2D, 0x2A, 0x2C, 0x28] := by
  have hchars : (decChars intMin).map Prod.fst = some
      [0x2D, 0x2E, 0x2F, 0x2C, 0x29, 0x2C, 0x28, 0x2D, 0x2A, 0x2C, 0x28] := by decide +kernel
  simp only [said, printed, hchars, Option.getD_some]

/-- Its numeral. -/
theorem render_min (m : Mem) : render m (.dir .dec, intMin) =
    [0x2D, 0x32, 0x31, 0x34, 0x37, 0x34, 0x38, 0x33, 0x36, 0x34, 0x38] := by
  have hchars : decimal (asInt intMin) =
      [0x2D, 0x32, 0x31, 0x34, 0x37, 0x34, 0x38, 0x33, 0x36, 0x34, 0x38] := by decide +kernel
  exact hchars

/-- A console with a port. -/
def serialConsole : Console := ⟨true, true⟩

/-- The two are of one length at every console, and differ where there is one. -/
theorem said_min_ne (m : Mem) (con : Console) :
    ((said m (.dir .dec, intMin)).flatMap (mputchar con)).length =
      ((render m (.dir .dec, intMin)).flatMap (mputchar con)).length ∧
    (said m (.dir .dec, intMin)).flatMap (mputchar serialConsole) ≠
      (render m (.dir .dec, intMin)).flatMap (mputchar serialConsole) := by
  obtain ⟨a, b⟩ := con
  rw [said_min, render_min]
  exact ⟨by revert a b; decide, by decide⟩

theorem flatMap_said {p : Item × UInt32} (hlone : p.1 ≠ .lone) :
    ((said m p).flatMap (mputchar con)).length = ((render m p).flatMap (mputchar con)).length := by
  by_cases hmin : IsMin p
  · obtain rfl : p = _ := hmin
    exact (said_min_ne m con).1
  · rw [said_eq_render hlone hmin]

theorem mem_of_withArgs : ∀ {is : List Item} {va : List UInt32} {p : Item × UInt32},
    p ∈ withArgs is va → p.1 ∈ is
  | [], _, _, h => absurd h List.not_mem_nil
  | i :: is, va, p, h => by
    rcases List.mem_cons.mp h with rfl | h
    · exact List.mem_cons_self
    · exact List.mem_cons_of_mem i (mem_of_withArgs h)

/-- **What is printed is what should be**, at every console, exactly if the least number is not among
what `%d` prints. -/
theorem out_right_iff {is : List Item} (hlone : Item.lone ∉ is) :
    (∀ con, ((withArgs is va).flatMap (said m)).flatMap (mputchar con) =
        ((withArgs is va).flatMap (render m)).flatMap (mputchar con)) ↔
      (.dir .dec, intMin) ∉ withArgs is va := by
  have hne : ∀ p ∈ withArgs is va, p.1 ≠ .lone := fun p hp h => hlone (h ▸ mem_of_withArgs hp)
  have hiff : ∀ con, ((withArgs is va).flatMap (said m)).flatMap (mputchar con) =
      ((withArgs is va).flatMap (render m)).flatMap (mputchar con) ↔
        ∀ p ∈ withArgs is va, (said m p).flatMap (mputchar con) = (render m p).flatMap (mputchar con) := by
    intro con
    rw [List.flatMap_assoc, List.flatMap_assoc]
    exact flatMap_eq_iff fun p hp => flatMap_said (hne p hp)
  simp only [hiff]
  constructor
  · intro h hmem
    exact (said_min_ne m serialConsole).2 (h serialConsole _ hmem)
  · intro hmin con p hp
    rw [said_eq_render (hne p hp) fun h => hmin (h ▸ hp)]

/-- **The two functions**: with arguments of the right types they do what they should exactly if the
format does not end in a lone `%` and no `%d` or `%i` gets the least number. -/
theorem kprintf_right_iff (h : StrIs m s cs) (hva : Matches m (parse cs) va) :
    (∀ con, PrintsRight con m s cs va) ↔
      Item.lone ∉ parse cs ∧ (.dir .dec, intMin) ∉ withArgs (parse cs) va := by
  by_cases hlone : Item.lone ∈ parse cs
  · refine iff_of_false (fun hright => ?_) fun hno => hno.1 hlone
    obtain ⟨r, rEx, hrun, -, -, -, hwithin⟩ := hright serialConsole
    have hread : s + cs.length + 1 ∈ r.reads :=
      reads_of_lone ⟨s, va, [], [], []⟩ (Nat.lt_succ_self _) h hlone hva.strings hrun
    have hbound := (hwithin r List.mem_cons_self).1 _ hread
    omega
  rw [← out_right_iff hlone (m := m)]
  constructor
  · refine fun hright => ⟨hlone, fun con => ?_⟩
    obtain ⟨r, rEx, hrun, -, -, hout, -⟩ := hright con
    obtain ⟨r', hrun', hout', -⟩ := ends_printf (mputchar con) ⟨s, va, [], [], []⟩
      (Nat.lt_succ_self _) h hlone hva.strings
    rw [hrun.unique hrun'] at hout
    exact hout'.symm.trans hout
  · rintro ⟨-, hall⟩ con
    obtain ⟨r, hrun, hout, hreads, hidx⟩ := ends_printf (mputchar con) ⟨s, va, [], [], []⟩
      (Nat.lt_succ_self _) h hlone hva.strings
    have hin : (∀ a ∈ r.reads, s ≤ a ∧ a ≤ s + cs.length) ∧ ∀ i ∈ r.idx, 0 ≤ i ∧ i < 11 :=
      ⟨fun a ha => (hreads a ha).resolve_left List.not_mem_nil,
        fun i hi => (hidx i hi).resolve_left List.not_mem_nil⟩
    refine ⟨r, r, hrun, hrun, rfl, hout.trans (hall con), ?_⟩
    intro t ht
    rcases List.mem_pair.mp ht with rfl | rfl <;> exact hin

/-- The memory that begins with these bytes. -/
def memOf (bytes : List UInt8) : Mem := fun x => bytes.getD x 0

/-- `%i:%X` of -42 and 255. -/
theorem kprintf_right_two : PrintsRight serialConsole (memOf [0x25, 0x69, 0x3A, 0x25, 0x58]) 0
    [0x25, 0x69, 0x3A, 0x25, 0x58] [0xFFFFFFD6, 0xFF] :=
  (kprintf_right_iff (by decide) ⟨by decide, by unfold Strings; decide⟩).mpr (by decide) serialConsole

/-- **`%` alone, and `%d` of the least number**, at a console with a port. -/
theorem kprintf_wrong :
    ¬ PrintsRight serialConsole (memOf [0x25]) 0 [0x25] [] ∧
    ¬ PrintsRight serialConsole (memOf [0x25, 0x64]) 0 [0x25, 0x64] [intMin] := by
  constructor
  · rintro ⟨r, rEx, hrun, -, -, -, hwithin⟩
    have hread : 0 + [(0x25 : UInt8)].length + 1 ∈ r.reads :=
      reads_of_lone ⟨0, [], [], [], []⟩ (Nat.lt_succ_self _) (by decide) (by decide)
        (by unfold Strings; decide) hrun
    exact absurd ((hwithin r List.mem_cons_self).1 _ hread).2 (by decide)
  · rintro ⟨r, rEx, hrun, -, -, hout, -⟩
    have hstr : StrIs (memOf [0x25, 0x64]) 0 [0x25, 0x64] := by decide
    obtain ⟨r', hrun', hout', -⟩ := ends_printf (mputchar serialConsole)
      ⟨0, [intMin], [], [], []⟩ (Nat.lt_succ_self _) hstr (by decide) (by unfold Strings; decide)
    rw [hrun.unique hrun', hout'] at hout
    refine (said_min_ne (memOf [0x25, 0x64]) serialConsole).2 ?_
    simpa [parse, directiveOf, withArgs] using hout

end AndixOs.Debug
