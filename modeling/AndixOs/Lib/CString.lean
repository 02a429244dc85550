/-
# C strings in byte memory

A C string is the bytes up to the first `NUL`.  The functions here are those of a C library on byte
memory: `memset`, `strncpy`, `strncat`, and reading a string with a limit on the bytes looked at.  `strncpy` fills
up with zeros behind the string, so it writes as many bytes as it is told to, whatever the string.

* `strAt_strncpy`: what is copied with room for its `NUL` is read back;
* `strncat_spec`: what `strncat` appends, and that its `NUL` is one byte more than it was asked for.

Nothing here names the kernel.
-/
import AndixOs.Lib.Mem32

namespace AndixOs

variable {m m' : Mem} {a d x n k : Nat} {cs : List UInt8}

/-! ## 1. Words as `uint32_t` -/

/-- The word at an address. -/
def word (m : Mem) (a : Nat) : UInt32 := UInt32.ofNat (load32 m a)

def putWord (m : Mem) (a : Nat) (v : UInt32) : Mem := store32 m a v.toNat

@[simp] theorem word_putWord (m : Mem) (a : Nat) (v : UInt32) : word (putWord m a v) a = v := by
  rw [word, putWord, load32_store32, w32_of_lt v.toNat_lt, UInt32.ofNat_toNat]

theorem word_putWord_of_ne {b : Nat} (v : UInt32) (h : b + 4 ≤ a ∨ a + 4 ≤ b) :
    word (putWord m a v) b = word m b := congrArg UInt32.ofNat (load32_store32_of_ne h)

theorem putWord_of_ne (v : UInt32) (h : x < a ∨ a + 4 ≤ x) : putWord m a v x = m x :=
  store32_of_ne h

theorem word_congr (h : ∀ x, a ≤ x → x < a + 4 → m' x = m x) : word m' a = word m a :=
  congrArg UInt32.ofNat (load32_congr h)

/-- The words from an address on. -/
def words (m : Mem) : Nat → Nat → List UInt32
  | _, 0 => []
  | a, n + 1 => word m a :: words m (a + 4) n

theorem words_congr : ∀ {n a : Nat}, (∀ x, a ≤ x → x < a + 4 * n → m' x = m x) →
    words m' a n = words m a n
  | 0, _, _ => rfl
  | n + 1, a, h => by
    rw [words, words, word_congr fun x hlo hhi => h x hlo (by omega),
      words_congr fun x hlo hhi => h x (by omega) (by omega)]

/-- Words stored one behind the other. -/
def putWords : Mem → Nat → List UInt32 → Mem
  | m, _, [] => m
  | m, a, v :: vs => putWords (putWord m a v) (a + 4) vs

theorem putWords_of_lt : ∀ {vs : List UInt32} {m : Mem} {a : Nat}, x < a → putWords m a vs x = m x
  | [], _, _, _ => rfl
  | v :: vs, _, _, h => by rw [putWords, putWords_of_lt (by omega), putWord_of_ne v (Or.inl h)]

theorem words_putWords : ∀ (vs : List UInt32) (m : Mem) (a : Nat),
    words (putWords m a vs) a vs.length = vs
  | [], _, _ => rfl
  | v :: vs, m, a => by
    have hhead : word (putWords (putWord m a v) (a + 4) vs) a = v :=
      (word_congr fun x _ hhi => putWords_of_lt hhi).trans (word_putWord m a v)
    rw [putWords, List.length_cons, words, hhead, words_putWords]

/-! ## 2. `memset` and `strncpy` -/

def memset (m : Mem) (d : Nat) (v : UInt8) : Nat → Mem
  | 0 => m
  | n + 1 => memset (store8 m d v) (d + 1) v n

/-- `strncpy` of the string with the characters `cs`. -/
def strncpy : Mem → Nat → List UInt8 → Nat → Mem
  | m, _, _, 0 => m
  | m, d, [], n + 1 => strncpy (store8 m d 0) (d + 1) [] n
  | m, d, c :: cs, n + 1 => strncpy (store8 m d c) (d + 1) cs n

theorem memset_of_lt {v : UInt8} : ∀ {n : Nat} {m : Mem} {d : Nat}, x < d → memset m d v n x = m x
  | 0, _, _, _ => rfl
  | n + 1, m, d, h => by
    rw [memset, memset_of_lt (Nat.lt_succ_of_lt h), store8_of_ne (Nat.ne_of_lt h)]

theorem strncpy_of_lt : ∀ {n : Nat} {m : Mem} {d : Nat} {cs : List UInt8}, x < d →
    strncpy m d cs n x = m x
  | 0, _, _, _, _ => by rw [strncpy]
  | n + 1, m, d, [], h => by
    rw [strncpy, strncpy_of_lt (Nat.lt_succ_of_lt h), store8_of_ne (Nat.ne_of_lt h)]
  | n + 1, m, d, c :: cs, h => by
    rw [strncpy, strncpy_of_lt (Nat.lt_succ_of_lt h), store8_of_ne (Nat.ne_of_lt h)]

/-! ## 3. Reading a string -/

/-- The string at an address, if its `NUL` is among the first `limit` bytes. -/
def strAt (m : Mem) : Nat → Nat → Option (List UInt8)
  | 0, _ => none
  | limit + 1, a => if m a = 0 then some [] else (strAt m limit (a + 1)).map (m a :: ·)

theorem strAt_congr : ∀ {n a : Nat}, (∀ x, a ≤ x → x < a + n → m' x = m x) →
    strAt m' n a = strAt m n a
  | 0, _, _ => rfl
  | n + 1, a, h => by
    rw [strAt, strAt, h a (Nat.le_refl a) (by omega),
      strAt_congr fun x hlo hhi => h x (by omega) (by omega)]

/-- How the characters of a string come about. -/
theorem strAt_succ (h : strAt m (n + 1) a = some cs) :
    (m a = 0 ∧ cs = []) ∨ ∃ cs', m a ≠ 0 ∧ strAt m n (a + 1) = some cs' ∧ cs = m a :: cs' := by
  rw [strAt] at h
  split at h
  · exact Or.inl ⟨‹_›, (Option.some.inj h).symm⟩
  · obtain ⟨cs', hcs, rfl⟩ := Option.map_eq_some_iff.mp h
    exact Or.inr ⟨cs', ‹_›, hcs, rfl⟩

theorem strAt_length : ∀ {n a : Nat} {cs : List UInt8}, strAt m n a = some cs → cs.length < n
  | n + 1, a, cs, h => by
    rcases strAt_succ h with ⟨_, rfl⟩ | ⟨cs', _, hcs, rfl⟩
    · exact Nat.succ_pos n
    · exact Nat.succ_lt_succ (strAt_length hcs)

/-- No character is a `NUL`. -/
theorem strAt_nul : ∀ {n a : Nat} {cs : List UInt8}, strAt m n a = some cs → 0 ∉ cs
  | n + 1, a, cs, h => by
    rcases strAt_succ h with ⟨_, rfl⟩ | ⟨cs', hne, hcs, rfl⟩
    · exact List.not_mem_nil
    · intro hmem
      rcases List.mem_cons.mp hmem with hzero | hmem
      · exact hne hzero.symm
      · exact strAt_nul hcs hmem

/-- A higher limit changes nothing. -/
theorem strAt_mono : ∀ {n k a : Nat} {cs : List UInt8}, strAt m n a = some cs → n ≤ k →
    strAt m k a = some cs
  | n + 1, k, a, cs, h, hle => by
    obtain ⟨k, rfl⟩ := Nat.exists_eq_succ_of_ne_zero (Nat.ne_of_gt (Nat.lt_of_lt_of_le n.succ_pos hle))
    rcases strAt_succ h with ⟨hzero, rfl⟩ | ⟨cs', hne, hcs, rfl⟩
    · rw [strAt, if_pos hzero]
    · rw [strAt, if_neg hne, strAt_mono hcs (Nat.le_of_succ_le_succ hle)]
      rfl

/-- **What `strncpy` copies is read back**, where there was room for the `NUL`. -/
theorem strAt_strncpy : ∀ {cs : List UInt8} {n k : Nat} {m : Mem} {d : Nat}, 0 ∉ cs →
    cs.length < n → cs.length < k → strAt (strncpy m d cs n) k d = some cs
  | [], n + 1, k + 1, m, d, _, _, _ => by
    rw [strncpy, strAt, strncpy_of_lt (Nat.lt_succ_self d)]
    exact if_pos (if_pos rfl)
  | c :: cs, n + 1, k + 1, m, d, hnul, hn, hk => by
    have hself : strncpy (store8 m d c) (d + 1) cs n d = c := by
      rw [strncpy_of_lt (Nat.lt_succ_self d)]
      exact if_pos rfl
    have hc : c ≠ 0 := fun h => hnul (h ▸ List.mem_cons_self)
    have hcs : 0 ∉ cs := fun h => hnul (List.mem_cons_of_mem c h)
    rw [strncpy, strAt, hself, if_neg hc, strAt_strncpy hcs (Nat.lt_of_succ_lt_succ hn)
      (Nat.lt_of_succ_lt_succ hk)]
    rfl

/-! ## 4. `strncat` -/

/-- The string at an address is `cs`. -/
def StrIs (m : Mem) (a : Nat) (cs : List UInt8) : Prop := strAt m (cs.length + 1) a = some cs

instance (m : Mem) (a : Nat) (cs : List UInt8) : Decidable (StrIs m a cs) :=
  inferInstanceAs (Decidable (_ = _))

/-- The `NUL` of the string at an address, if it is among the first `limit` bytes. -/
def strEnd (m : Mem) : Nat → Nat → Option Nat
  | 0, _ => none
  | limit + 1, a => if m a = 0 then some a else strEnd m limit (a + 1)

/-- The characters `cs` and a `NUL`. -/
def putStr : Mem → Nat → List UInt8 → Mem
  | m, a, [] => store8 m a 0
  | m, a, c :: cs => putStr (store8 m a c) (a + 1) cs

/-- `strncat` of at most `n` of the characters `cs`: the `NUL` behind them is not counted.  `none`:
the string at `d` does not end in the address space. -/
def strncat (m : Mem) (d : Nat) (cs : List UInt8) (n : Nat) : Option Mem :=
  (strEnd m 4294967296 d).map fun e => putStr m e (cs.take n)

theorem strEnd_of_strAt : ∀ {n limit a : Nat} {cs : List UInt8}, strAt m n a = some cs → n ≤ limit →
    strEnd m limit a = some (a + cs.length)
  | n + 1, limit, a, cs, h, hle => by
    obtain ⟨limit, rfl⟩ : ∃ k, limit = k + 1 := ⟨limit - 1, by omega⟩
    rw [strEnd]
    rcases strAt_succ h with ⟨hzero, rfl⟩ | ⟨cs', hne, hcs, rfl⟩
    · rw [if_pos hzero]
      rfl
    · rw [if_neg hne, strEnd_of_strAt hcs (Nat.le_of_succ_le_succ hle), List.length_cons]
      congr 1
      omega

theorem putStr_of_lt : ∀ {cs : List UInt8} {m : Mem} {a : Nat}, x < a → putStr m a cs x = m x
  | [], _, _, h => store8_of_ne (Nat.ne_of_lt h)
  | c :: cs, _, _, h => by
    rw [putStr, putStr_of_lt (Nat.lt_succ_of_lt h), store8_of_ne (Nat.ne_of_lt h)]

theorem putStr_of_gt : ∀ {cs : List UInt8} {m : Mem} {a : Nat}, a + cs.length < x →
    putStr m a cs x = m x
  | [], _, _, h => store8_of_ne (Nat.ne_of_gt h)
  | c :: cs, _, _, h => by
    rw [List.length_cons] at h
    rw [putStr, putStr_of_gt (by omega), store8_of_ne (by omega)]

theorem strAt_putStr : ∀ {ds : List UInt8} {m : Mem} {a : Nat}, 0 ∉ ds → StrIs (putStr m a ds) a ds
  | [], m, a, _ => if_pos (if_pos rfl)
  | d :: ds, m, a, hnul => by
    have hd : d ≠ 0 := fun h => hnul (h ▸ List.mem_cons_self)
    have hds : 0 ∉ ds := fun h => hnul (List.mem_cons_of_mem d h)
    have hself : putStr (store8 m a d) (a + 1) ds a = d := by
      rw [putStr_of_lt (Nat.lt_succ_self a)]
      exact if_pos rfl
    rw [StrIs, putStr, List.length_cons, strAt, hself, if_neg hd, strAt_putStr hds]
    rfl

/-- A string whose `NUL` gives way to another string. -/
theorem StrIs.append : ∀ {cs ds : List UInt8} {a : Nat}, StrIs m a cs →
    (∀ x, a ≤ x → x < a + cs.length → m' x = m x) → StrIs m' (a + cs.length) ds →
      StrIs m' a (cs ++ ds)
  | [], _, _, _, _, hds => hds
  | c :: cs, ds, a, h, hsame, hds => by
    obtain ⟨hzero, hnil⟩ | ⟨cs', hne, hcs, heq⟩ := strAt_succ h
    · cases hnil
    · obtain ⟨rfl, rfl⟩ := List.cons.inj heq
      rw [List.length_cons] at hsame hds
      have hself : m' a = m a := hsame a (Nat.le_refl a) (by omega)
      have hend : a + (cs.length + 1) = a + 1 + cs.length := by omega
      rw [hend] at hds
      have htail : StrIs m' (a + 1) (cs ++ ds) :=
        StrIs.append hcs (fun x hlo hhi => hsame x (by omega) (by omega)) hds
      rw [StrIs, List.cons_append, List.length_cons, strAt, hself, if_neg hne, htail]
      rfl

/-- **What `strncat` does**: it appends at most `n` characters and a `NUL`, and writes nothing
else. -/
theorem strncat_spec {d : Nat} {cs ds : List UInt8} {n : Nat} (h : StrIs m d cs) (hnul : 0 ∉ ds)
    (hlen : cs.length < 4294967296) :
    ∃ m', strncat m d ds n = some m' ∧ StrIs m' d (cs ++ ds.take n) ∧
      ∀ x, x < d + cs.length ∨ d + cs.length + (ds.take n).length < x → m' x = m x := by
  have htake : 0 ∉ ds.take n := fun h0 => hnul (List.mem_of_mem_take h0)
  refine ⟨putStr m (d + cs.length) (ds.take n), ?_, ?_, ?_⟩
  · rw [strncat, strEnd_of_strAt h hlen]
    rfl
  · exact h.append (fun x _ hx => putStr_of_lt hx) (strAt_putStr htake)
  · rintro x (hx | hx)
    · exact putStr_of_lt hx
    · exact putStr_of_gt hx

/-- A `NUL` is an empty string. -/
theorem strIs_nil (h : m a = 0) : StrIs m a [] := if_pos h

/-- Behind a string stands a `NUL`. -/
theorem StrIs.nul : ∀ {cs : List UInt8} {a : Nat}, StrIs m a cs → m (a + cs.length) = 0
  | [], a, h => by
    obtain ⟨hzero, -⟩ | ⟨cs', -, hcs, heq⟩ := strAt_succ h
    · exact hzero
    · cases heq
  | c :: cs, a, h => by
    obtain ⟨-, hnil⟩ | ⟨cs', -, hcs, heq⟩ := strAt_succ h
    · cases hnil
    · obtain ⟨-, rfl⟩ := List.cons.inj heq
      have hend : a + (c :: cs).length = a + 1 + cs.length := by
        rw [List.length_cons]
        omega
      rw [hend]
      exact StrIs.nul hcs

/-- The characters of a string, one by one. -/
theorem StrIs.cons {c : UInt8} (h : StrIs m a (c :: cs)) : m a = c ∧ StrIs m (a + 1) cs := by
  obtain ⟨-, hnil⟩ | ⟨cs', -, hcs, heq⟩ := strAt_succ h
  · cases hnil
  · obtain ⟨rfl, rfl⟩ := List.cons.inj heq
    exact ⟨rfl, hcs⟩

theorem StrIs.drop : ∀ {cs ds : List UInt8} {a : Nat}, StrIs m a (cs ++ ds) → StrIs m (a + cs.length) ds
  | [], _, _, h => h
  | c :: cs, ds, a, h => by
    have htail := StrIs.drop h.cons.2
    rw [Nat.add_assoc, Nat.add_comm 1 cs.length] at htail
    exact htail

theorem memset_apply {v : UInt8} : ∀ {n : Nat} {m : Mem} {d : Nat},
    memset m d v n x = if d ≤ x ∧ x < d + n then v else m x
  | 0, m, d => by rw [memset, if_neg (by omega)]
  | n + 1, m, d => by
    rw [memset, memset_apply]
    by_cases hx : x = d
    · rw [if_neg (by omega), if_pos (by omega), hx]
      exact if_pos rfl
    · rw [store8_of_ne hx]
      congr 1
      rw [eq_iff_iff]
      omega

end AndixOs
