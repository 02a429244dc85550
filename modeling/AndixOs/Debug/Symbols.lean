/-
# The name of a function

`get_function_name` looks up an address in the symbol table that the build puts behind the read-only
data: entries of eight hexadecimal digits, three characters and a name, each closed by a `NUL`, in the
order of their addresses.  It walks over the table and returns the name it saw last when the address
of an entry is above the one it looks for.

Three things go wrong.

* The digit decoder takes every capital letter for `A` (`readAs`): each comparison joins the equality
  with the capital letter by `||` to `<=` with the small one.
* The walk starts one byte behind the beginning of the table, so the first entry's address is read
  from its second digit on, and its name from its second letter on.
* The walk that reaches the end of the table returns `"UNKNOWN"`, also for the last function.

`functionName_iff` says for which tables and addresses none of them shows.
-/
import AndixOs.Lib.CString
import AndixOs.Lib.Hex
import AndixOs.Lib.Loop

namespace AndixOs.Debug

/-! ## 1. The decoder -/

/-- `get_hex_value`. -/
def getHexValue (c : UInt8) : UInt8 :=
  if 0x30 ≤ c ∧ c ≤ 0x39 then c - 0x30
  else if c = 0x41 ∨ c ≤ 0x61 then 0xA
  else if c = 0x42 ∨ c ≤ 0x62 then 0xB
  else if c = 0x43 ∨ c ≤ 0x63 then 0xC
  else if c = 0x44 ∨ c ≤ 0x64 then 0xD
  else if c = 0x45 ∨ c ≤ 0x65 then 0xE
  else if c = 0x46 ∨ c ≤ 0x66 then 0xF
  else 0

/-- The loop of `get_hex_word`: so many digits are still to come. -/
def hexWordLoop (m : Mem) : Nat → Nat → UInt32 → UInt32
  | 0, _, value => value
  | i + 1, ptr, value =>
    hexWordLoop m i (ptr + 1) (value + (getHexValue (m ptr)).toUInt32 <<< UInt32.ofNat (i * 4))

/-- `get_hex_word`. -/
def getHexWord (m : Mem) (ptr : Nat) : UInt32 := hexWordLoop m 8 ptr 0

/-- The digit that the decoder takes a character for. -/
def readAs (c : UInt8) : UInt8 :=
  if 0x30 ≤ c ∧ c ≤ 0x39 then c else if c ≤ 0x61 then 0x61 else if c ≤ 0x66 then c else 0x30

/-- A letter from `B` to `F`. -/
def IsCapital (c : UInt8) : Prop := 0x42 ≤ c ∧ c ≤ 0x46

instance (c : UInt8) : Decidable (IsCapital c) := inferInstanceAs (Decidable (_ ∧ _))

/-! ## 2. What the decoder reads -/

variable {m : Mem} {a ptr table : Nat} {c : UInt8} {g cs : List UInt8}

/-- What holds of all bytes, checked one by one. -/
theorem forall_byte {p : UInt8 → Prop} (h : ∀ i : Fin 256, p (UInt8.ofNat i)) (c : UInt8) : p c := by
  have hc := h ⟨c.toNat, c.toNat_lt⟩
  rwa [UInt8.ofNat_toNat] at hc

/-- Byte by byte: the decoder takes a character for a digit, with its value, and that is not more than
the value of the digit that the character is. -/
theorem readAs_byte : ∀ c, IsHex (readAs c) ∧ (getHexValue c).toNat = digitOf (readAs c) ∧
    (IsHex c → digitOf (readAs c) ≤ digitOf c) ∧
    (IsHex c → (digitOf (readAs c) = digitOf c ↔ ¬ IsCapital c)) :=
  forall_byte (by decide +kernel)

theorem isHex_readAs (c : UInt8) : IsHex (readAs c) := (readAs_byte c).1

/-- **The decoder** gives the value of the digit it takes a character for. -/
theorem getHexValue_eq (c : UInt8) : (getHexValue c).toNat = digitOf (readAs c) := (readAs_byte c).2.1

theorem digitOf_readAs_le : ∀ c, IsHex c → digitOf (readAs c) ≤ digitOf c := fun c => (readAs_byte c).2.2.1

/-- Only the letters from `B` to `F` are taken for something else. -/
theorem digitOf_readAs_eq_iff : ∀ c, IsHex c → (digitOf (readAs c) = digitOf c ↔ ¬ IsCapital c) :=
  fun c => (readAs_byte c).2.2.2

theorem hexValue_readAs_lt (g : List UInt8) : hexValue (g.map readAs) < 16 ^ g.length := by
  have hlt : hexValue (g.map readAs) < 16 ^ (g.map readAs).length := by
    refine hexValue_lt fun c hc => ?_
    obtain ⟨d, -, rfl⟩ := List.mem_map.mp hc
    exact isHex_readAs d
  rwa [List.length_map] at hlt

/-- What is read is never more than what is meant. -/
theorem hexValue_readAs_le (h : ∀ c ∈ g, IsHex c) : hexValue (g.map readAs) ≤ hexValue g := by
  induction g with
  | nil => exact Nat.le_refl _
  | cons c g ih =>
    obtain ⟨hc, hg⟩ := List.forall_mem_cons.mp h
    rw [List.map_cons, hexValue_cons, hexValue_cons, List.length_map]
    exact Nat.add_le_add (Nat.mul_le_mul_right _ (digitOf_readAs_le c hc)) (ih hg)

/-- A row is read as it is meant if no letter from `B` to `F` is in it. -/
theorem hexValue_readAs_eq_iff (h : ∀ c ∈ g, IsHex c) :
    hexValue (g.map readAs) = hexValue g ↔ ∀ c ∈ g, ¬ IsCapital c := by
  induction g with
  | nil => exact iff_of_true rfl (List.forall_mem_nil _)
  | cons c g ih =>
    obtain ⟨hc, hg⟩ := List.forall_mem_cons.mp h
    have hle := hexValue_readAs_le hg
    have hdigit := Nat.mul_le_mul_right (16 ^ g.length) (digitOf_readAs_le c hc)
    rw [List.map_cons, hexValue_cons, hexValue_cons, List.length_map, List.forall_mem_cons, ← ih hg,
      ← digitOf_readAs_eq_iff c hc]
    constructor
    · intro heq
      have hmul : digitOf (readAs c) * 16 ^ g.length = digitOf c * 16 ^ g.length := by omega
      exact ⟨Nat.eq_of_mul_eq_mul_right (Nat.pow_pos (by decide)) hmul, by omega⟩
    · rintro ⟨hcap, hrest⟩
      rw [hcap, hrest]

/-- The loop adds up the digits of a row that begins a string. -/
theorem hexWordLoop_eq : ∀ {g : List UInt8} {ptr : Nat} (value : UInt32), g.length ≤ 8 →
    StrIs m ptr (g ++ cs) → value.toNat + hexValue (g.map readAs) < 4294967296 →
      (hexWordLoop m g.length ptr value).toNat = value.toNat + hexValue (g.map readAs)
  | [], _, _, _, _, _ => rfl
  | c :: g, ptr, value, hlen, hstr, hfit => by
    obtain ⟨hc, hrest⟩ := hstr.cons
    rw [List.length_cons] at hlen ⊢
    rw [List.map_cons, hexValue_cons, List.length_map] at hfit ⊢
    have hshift : ((getHexValue c).toUInt32 <<< UInt32.ofNat (g.length * 4)).toNat =
        digitOf (readAs c) * 16 ^ g.length := by
      have hpow : 2 ^ (g.length * 4) = 16 ^ g.length := by
        rw [Nat.mul_comm, Nat.pow_mul]
      have hmod : g.length * 4 % 4294967296 % 32 = g.length * 4 := by omega
      rw [UInt32.toNat_shiftLeft, UInt8.toNat_toUInt32, getHexValue_eq, UInt32.toNat_ofNat', hmod,
        Nat.shiftLeft_eq, hpow]
      exact Nat.mod_eq_of_lt (by omega)
    have hsum : (value + (getHexValue c).toUInt32 <<< UInt32.ofNat (g.length * 4)).toNat =
        value.toNat + digitOf (readAs c) * 16 ^ g.length := by
      rw [UInt32.toNat_add, hshift]
      exact Nat.mod_eq_of_lt (by omega)
    rw [hexWordLoop, hc, hexWordLoop_eq _ (Nat.le_of_succ_le hlen) hrest (by rw [hsum]; omega), hsum]
    exact Nat.add_assoc _ _ _

/-- **`get_hex_word`** on eight characters of a string. -/
theorem getHexWord_eq (hg : g.length = 8) (hstr : StrIs m ptr (g ++ cs)) :
    (getHexWord m ptr).toNat = hexValue (g.map readAs) := by
  have hlt := hexValue_readAs_lt g
  rw [hg] at hlt
  have h := hexWordLoop_eq 0 hg.le hstr (by rw [UInt32.toNat_zero, Nat.zero_add]; exact hlt)
  rw [hg, UInt32.toNat_zero, Nat.zero_add] at h
  exact h

/-! ## 3. The walk over the table -/

/-- An entry of the table: a line of `nm`. -/
structure Symbol where
  digits : HexRow 8
  sep : List UInt8
  sep_length : sep.length = 3
  name : List UInt8

/-- Its characters. -/
def Symbol.text (e : Symbol) : List UInt8 := e.digits.chars ++ (e.sep ++ e.name)

/-- The bytes that it takes, with its `NUL`. -/
def Symbol.size (e : Symbol) : Nat := e.text.length + 1

/-- Its address. -/
def Symbol.addr (e : Symbol) : Nat := hexValue e.digits.chars

/-- The entries stand one behind the other. -/
def SymbolsAt (m : Mem) : Nat → List Symbol → Prop
  | _, [] => True
  | a, e :: es => StrIs m a e.text ∧ SymbolsAt m (a + e.size) es

/-- The bytes that they take. -/
def tableSize (es : List Symbol) : Nat := (es.map Symbol.size).sum

/-- What `get_function_name` returns. -/
inductive FunctionName where
  | null
  | name (ptr : Nat)
  | unknown
  deriving DecidableEq

/-- The variables of `get_function_name`. -/
structure Scan where
  ptr : Nat
  lastString : FunctionName

/-- A round of its loop.  Where no `NUL` comes, it is never left. -/
def functionNameRound (m : Mem) (tableEnd : Nat) (vaddr : UInt32) (s : Scan) : Scan ⊕ FunctionName :=
  let currentAddr := getHexWord m s.ptr
  let currentString := FunctionName.name (s.ptr + 8 + 3)
  if vaddr < currentAddr then .inr s.lastString
  else
    match strEnd m 4294967296 s.ptr with
    | none => .inl s
    | some e => if e + 1 < tableEnd then .inl ⟨e + 1, currentString⟩ else .inr .unknown

/-- `get_function_name` returns `r`. -/
def GetsFunctionName (m : Mem) (symbolTable symbolTableEnd : Nat) (vaddr : UInt32)
    (r : FunctionName) : Prop :=
  Ends (functionNameRound m symbolTableEnd vaddr) ⟨symbolTable + 1, .null⟩ r

variable {e s n : Symbol} {es pre post : List Symbol} {vaddr : UInt32} {last r : FunctionName}
  {tableEnd : Nat}

theorem Symbol.length_text (e : Symbol) : e.text.length = 11 + e.name.length := by
  rw [Symbol.text, List.length_append, List.length_append, e.digits.length_eq, e.sep_length,
    ← Nat.add_assoc]

/-- The characters that are read for the address of the first entry: they begin with its second
digit, and end with the first character behind its digits. -/
def Symbol.firstRead (e : Symbol) : List UInt8 := (e.text.drop 1).take 8

theorem Symbol.length_firstRead (e : Symbol) : e.firstRead.length = 8 := by
  rw [Symbol.firstRead, List.length_take, List.length_drop, e.length_text]
  omega

/-- The address that is read from an entry. -/
def Symbol.readAddr (e : Symbol) : Nat := hexValue (e.digits.chars.map readAs)

/-- The address that is read from the first entry. -/
def Symbol.firstAddr (e : Symbol) : Nat := hexValue (e.firstRead.map readAs)

theorem Symbol.readAddr_le (e : Symbol) : e.readAddr ≤ e.addr := hexValue_readAs_le e.digits.hex

theorem getHexWord_symbol (h : StrIs m a e.text) : (getHexWord m a).toNat = e.readAddr :=
  getHexWord_eq e.digits.length_eq h

/-- Behind the first byte of an entry stands the rest of it. -/
theorem strIs_tail (h : StrIs m a e.text) : StrIs m (a + 1) (e.text.drop 1) := by
  have hlen := e.length_text
  obtain ⟨c, cs, heq⟩ := List.exists_cons_of_length_pos (l := e.text) (by omega)
  rw [heq] at h ⊢
  exact h.cons.2

theorem getHexWord_first (h : StrIs m a e.text) : (getHexWord m (a + 1)).toNat = e.firstAddr := by
  have htail := strIs_tail h
  rw [← List.take_append_drop 8 (e.text.drop 1)] at htail
  exact getHexWord_eq e.length_firstRead htail

/-- What the walk finds from an entry on. -/
def foundName (vaddr : UInt32) : Nat → FunctionName → List Symbol → FunctionName
  | _, _, [] => .unknown
  | a, last, e :: es =>
    if vaddr.toNat < e.readAddr then last else foundName vaddr (a + e.size) (.name (a + 8 + 3)) es

/-- **One round** at a string that closes an entry. -/
theorem functionNameRound_eq (tableEnd : Nat) (vaddr : UInt32) (last : FunctionName)
    (h : StrIs m ptr cs) (hlen : cs.length < 4294967296) :
    functionNameRound m tableEnd vaddr ⟨ptr, last⟩ =
      if vaddr.toNat < (getHexWord m ptr).toNat then .inr last
      else if ptr + cs.length + 1 < tableEnd then
        .inl ⟨ptr + cs.length + 1, .name (ptr + 8 + 3)⟩
      else .inr .unknown := by
  simp only [functionNameRound, strEnd_of_strAt h hlen, UInt32.lt_iff_toNat_lt]

/-- **The walk** from an entry to the end of the table. -/
theorem ends_foundName : ∀ {es : List Symbol} {a : Nat} {last : FunctionName}, es ≠ [] →
    SymbolsAt m a es → a + tableSize es = tableEnd → tableEnd ≤ 4294967296 →
      Ends (functionNameRound m tableEnd vaddr) ⟨a, last⟩ (foundName vaddr a last es)
  | [], _, _, hne, _, _, _ => absurd rfl hne
  | e :: es, a, last, _, ⟨he, hes⟩, hend, hfit => by
    have hsize : tableSize (e :: es) = e.size + tableSize es := List.sum_cons
    have htext : e.text.length + 1 = e.size := rfl
    have hround := functionNameRound_eq tableEnd vaddr last he (by omega)
    rw [getHexWord_symbol he] at hround
    rw [foundName]
    by_cases hbelow : vaddr.toNat < e.readAddr
    · rw [if_pos hbelow] at hround ⊢
      exact ends_of_inr hround
    rw [if_neg hbelow] at hround ⊢
    cases es with
    | nil =>
      have hdone : ¬ a + e.text.length + 1 < tableEnd := by
        have hnil : tableSize [] = 0 := rfl
        omega
      rw [if_neg hdone] at hround
      exact ends_of_inr hround
    | cons e' es =>
      have hmore : a + e.text.length + 1 < tableEnd := by
        have hsize' : tableSize (e' :: es) = e'.size + tableSize es := List.sum_cons
        have htext' : e'.text.length + 1 = e'.size := rfl
        omega
      rw [if_pos hmore] at hround
      exact ends_of_inl hround
        (ends_foundName (List.cons_ne_nil e' es) hes (by omega) hfit)

/-- **The whole walk**: the first entry is looked at from its second byte on. -/
theorem getsFunctionName (vaddr : UInt32) (es : List Symbol) (hes : SymbolsAt m table (e :: es))
    (hfit : table + tableSize (e :: es) ≤ 4294967296) :
    GetsFunctionName m table (table + tableSize (e :: es)) vaddr
      (if vaddr.toNat < e.firstAddr then .null
        else foundName vaddr (table + e.size) (.name (table + 1 + 8 + 3)) es) := by
  have hsize : tableSize (e :: es) = e.size + tableSize es := List.sum_cons
  have htext : e.text.length + 1 = e.size := rfl
  have hlen := e.length_text
  have hdrop : (e.text.drop 1).length = e.text.length - 1 := List.length_drop
  have hround := functionNameRound_eq (table + tableSize (e :: es)) vaddr .null (strIs_tail hes.1)
    (by omega)
  have hnext : table + 1 + (e.text.drop 1).length + 1 = table + e.size := by omega
  simp only [getHexWord_first hes.1, hnext] at hround
  unfold GetsFunctionName
  by_cases hbelow : vaddr.toNat < e.firstAddr
  · rw [if_pos hbelow] at hround ⊢
    exact ends_of_inr hround
  rw [if_neg hbelow] at hround ⊢
  cases es with
  | nil =>
    have hdone : ¬ table + e.size < table + tableSize [e] := by
      have hnil : tableSize [] = 0 := rfl
      omega
    rw [if_neg hdone] at hround
    exact ends_of_inr hround
  | cons e' es =>
    have hmore : table + e.size < table + tableSize (e :: e' :: es) := by
      have hsize' : tableSize (e' :: es) = e'.size + tableSize es := List.sum_cons
      have htext' : e'.text.length + 1 = e'.size := rfl
      omega
    rw [if_pos hmore] at hround
    exact ends_of_inl hround (ends_foundName (List.cons_ne_nil e' es) hes.2 (by omega) hfit)

/-! ## 4. When the name is right -/

/-- Entries that the walk passes. -/
theorem foundName_append : ∀ {pre : List Symbol} {a : Nat} {last : FunctionName},
    (∀ p ∈ pre, p.addr ≤ vaddr.toNat) → s.addr ≤ vaddr.toNat →
      foundName vaddr a last (pre ++ s :: post) =
        foundName vaddr (a + tableSize pre + s.size) (.name (a + tableSize pre + 8 + 3)) post
  | [], _, _, _, hs => if_neg (Nat.not_lt.mpr (s.readAddr_le.trans hs))
  | p :: pre, a, last, hpre, hs => by
    obtain ⟨hp, hpre⟩ := List.forall_mem_cons.mp hpre
    have hsize : tableSize (p :: pre) = p.size + tableSize pre := List.sum_cons
    rw [List.cons_append, foundName, if_neg (Nat.not_lt.mpr (p.readAddr_le.trans hp)),
      foundName_append hpre hs, hsize, ← Nat.add_assoc]

/-- No other name stands where an earlier one does. -/
theorem foundName_ne {x : Nat} : ∀ {es : List Symbol} {a b : Nat}, x < a → x < b + 11 →
    foundName vaddr a (.name (b + 8 + 3)) es ≠ .name x
  | [], _, _, _, _ => nofun
  | e :: es, a, b, ha, hb => by
    rw [foundName]
    split
    · intro heq
      have hx := FunctionName.name.inj heq
      omega
    · exact foundName_ne (Nat.lt_add_right _ ha) (by omega)

/-- The walk stops with the last name exactly if another entry comes, whose address is read as one
above. -/
theorem foundName_eq_last_iff (vaddr : UInt32) (post : List Symbol) (ptr : Nat) {x : Nat}
    (hx : x = a + 11) (hnext : a + 11 ≤ ptr) :
    foundName vaddr ptr (.name x) post = .name x ↔
      ∃ n rest, post = n :: rest ∧ vaddr.toNat < n.readAddr := by
  cases post with
  | nil => exact iff_of_false nofun (by rintro ⟨n, rest, hnil, -⟩; exact nomatch hnil)
  | cons n rest =>
    rw [foundName]
    constructor
    · intro h
      by_cases hbelow : vaddr.toNat < n.readAddr
      · exact ⟨n, rest, rfl, hbelow⟩
      · rw [if_neg hbelow] at h
        have hsize : 0 < n.size := Nat.succ_pos _
        exact absurd h (foundName_ne (by omega) (by omega))
    · rintro ⟨n', rest', heq, hbelow⟩
      obtain ⟨rfl, rfl⟩ := List.cons.inj heq
      exact if_pos hbelow

/-- A symbol table in the address space, in the order of its addresses. -/
structure SymbolTable (m : Mem) (table : Nat) (es : List Symbol) : Prop where
  stored : SymbolsAt m table es
  fits : table + tableSize es ≤ 4294967296
  sorted : es.Pairwise fun e e' => e.addr ≤ e'.addr

/-- **`get_function_name` and `get_hex_word`.**  Eight digits are read as what they mean exactly if no
letter from `B` to `F` is a capital.  And for an address whose function is `s`, the last entry at or
below it, the name of `s` is returned exactly if `s` is not the first entry, what is read for the
first one is not above the address, and behind `s` comes an entry that is read as one above it. -/
theorem functionName_iff (m : Mem) :
    (∀ (ptr : Nat) (row : HexRow 8) (rest : List UInt8), StrIs m ptr (row.chars ++ rest) →
      ((getHexWord m ptr).toNat = hexValue row.chars ↔ ∀ c ∈ row.chars, ¬ IsCapital c)) ∧
    ∀ (table : Nat) (vaddr : UInt32) (pre : List Symbol) (s : Symbol) (post : List Symbol),
      SymbolTable m table (pre ++ s :: post) → s.addr ≤ vaddr.toNat →
        (∀ e ∈ post, vaddr.toNat < e.addr) →
          (GetsFunctionName m table (table + tableSize (pre ++ s :: post)) vaddr
              (.name (table + tableSize pre + 8 + 3)) ↔
            (∃ first pre', pre = first :: pre' ∧ first.firstAddr ≤ vaddr.toNat) ∧
              ∃ n rest, post = n :: rest ∧ vaddr.toNat < n.readAddr) := by
  refine ⟨fun ptr row rest hstr => ?_, fun table vaddr pre s post htab hs _ => ?_⟩
  · rw [getHexWord_eq row.length_eq hstr]
    exact hexValue_readAs_eq_iff row.hex
  have hpre : ∀ p ∈ pre, p.addr ≤ vaddr.toNat := fun p hp =>
    (List.pairwise_append.mp htab.sorted).2.2 p hp s List.mem_cons_self |>.trans hs
  have hsize : s.size = 11 + s.name.length + 1 := congrArg (· + 1) s.length_text
  cases pre with
  | nil =>
    -- the name of the first entry is taken from its second letter on
    have hrun := getsFunctionName vaddr _ htab.stored htab.fits
    refine iff_of_false (fun h => ?_) (by rintro ⟨⟨first, pre', hnil, -⟩, -⟩; exact nomatch hnil)
    have heq := hrun.unique h
    split at heq
    · exact nomatch heq
    · exact foundName_ne (by simp [tableSize]; omega) (by simp [tableSize]) heq
  | cons first pre =>
    have hrun := getsFunctionName vaddr (pre ++ s :: post) htab.stored htab.fits
    have hsum : tableSize (first :: pre) = first.size + tableSize pre := List.sum_cons
    rw [foundName_append (List.forall_mem_cons.mp hpre).2 hs, Nat.add_assoc table first.size,
      ← hsum] at hrun
    by_cases hbelow : vaddr.toNat < first.firstAddr
    · rw [if_pos hbelow] at hrun
      refine iff_of_false (fun h => nomatch hrun.unique h) ?_
      rintro ⟨⟨first', pre', heq, hle⟩, -⟩
      obtain ⟨rfl, rfl⟩ := List.cons.inj heq
      exact absurd hbelow (Nat.not_lt.mpr hle)
    · rw [if_neg hbelow] at hrun
      have hlast := foundName_eq_last_iff vaddr post (table + tableSize (first :: pre) + s.size)
        (a := table + tableSize (first :: pre)) rfl (by omega)
      rw [← hlast]
      constructor
      · exact fun h => ⟨⟨first, pre, rfl, Nat.not_lt.mp hbelow⟩, hrun.unique h⟩
      · rintro ⟨-, hname⟩
        rwa [hname] at hrun

/-- The last two digits of an address in a function of one letter. -/
def textSymbol (hi lo name : UInt8) (h : IsHex hi ∧ IsHex lo) : Symbol where
  digits := ⟨[0x63, 0x30, 0x30, 0x31, 0x30, 0x30, hi, lo], rfl, by
    simp only [List.forall_mem_cons, h]
    decide +kernel⟩
  sep := [0x20, 0x54, 0x20]
  sep_length := rfl
  name := [name]

/-- `c0010000 T a`, `c0010010 T b` and `c0010020 T c`. -/
def threeSymbols : List Symbol :=
  [textSymbol 0x30 0x30 0x61 (by decide), textSymbol 0x31 0x30 0x62 (by decide),
    textSymbol 0x32 0x30 0x63 (by decide)]

/-- The memory that begins with them. -/
def threeTable : Mem := fun x => (threeSymbols.flatMap fun e => e.text ++ [0]).getD x 0

theorem symbolTable_three : SymbolTable threeTable 0 threeSymbols where
  stored := ⟨by decide +kernel, by decide +kernel, by decide +kernel, trivial⟩
  fits := by decide +kernel
  sorted := by decide +kernel

/-- An address in the second of three functions, and the eight digits of its entry. -/
theorem functionName_second : (getHexWord threeTable 13).toNat = 0xC0010010 ∧
    GetsFunctionName threeTable 0 39 0xC0010014 (.name 24) := by
  have h := functionName_iff threeTable
  refine ⟨((h.1 13 (textSymbol 0x31 0x30 0x62 (by decide)).digits
    [0x20, 0x54, 0x20, 0x62] (by decide +kernel)).mpr (by decide +kernel)).trans
    (by decide +kernel), ?_⟩
  refine (h.2 0 0xC0010014 [textSymbol 0x30 0x30 0x61 (by decide)]
    (textSymbol 0x31 0x30 0x62 (by decide)) [textSymbol 0x32 0x30 0x63 (by decide)] symbolTable_three
    (by decide +kernel) (by decide +kernel)).mpr ⟨⟨_, _, rfl, by decide +kernel⟩, _, _, rfl, ?_⟩
  decide +kernel

/-- **The first and the last function, and a capital letter**: for an address in `a` the walk returns
what stands behind the letter, for one in `c` it returns `"UNKNOWN"`; and `0000000B` is read as
10. -/
theorem functionName_wrong : SymbolTable threeTable 0 threeSymbols ∧
    ¬ GetsFunctionName threeTable 0 39 0xC0010004 (.name 11) ∧
    GetsFunctionName threeTable 0 39 0xC0010004 (.name 12) ∧
    ¬ GetsFunctionName threeTable 0 39 0xC0010024 (.name 37) ∧
    GetsFunctionName threeTable 0 39 0xC0010024 .unknown ∧
    (getHexWord (fun x => if x < 7 then 0x30 else if x = 7 then 0x42 else 0) 0).toNat = 10 := by
  have hfirst : GetsFunctionName threeTable 0 39 0xC0010004 (.name 12) := ⟨3, by decide +kernel⟩
  have hlast : GetsFunctionName threeTable 0 39 0xC0010024 .unknown := ⟨3, by decide +kernel⟩
  refine ⟨symbolTable_three, ?_, hfirst, ?_, hlast, by decide +kernel⟩
  · intro h
    exact absurd (hfirst.unique h) (by decide)
  · intro h
    exact absurd (hlast.unique h) (by decide)

end AndixOs.Debug
