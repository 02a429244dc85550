/-
# The tables compute Rijndael

`aes_crypt_ecb` does not substitute, turn and mix: it looks up a word for each byte and adds the words.
This file reads words as columns and shows that this is a round, that the words of the key schedules
are the columns of the key expansion, mixed back for deciphering, and with it what the two directions do to
every block under every key of the three lengths.

* `columns_aesFround`, `columns_aesRround`: a round of lookups is a round;
* `aesSetkeyEnc_columns`: the schedule is `keyExpansion`;
* `aesCryptEcb_is_rijndael`: `aes_crypt_ecb` enciphers and deciphers;
* `aesCryptEcb_inverse`: the two directions undo each other.
-/
import AndixOs.Crypto.Aes
import Mathlib.Tactic.IntervalCases

namespace AndixOs.Crypto

open Rijndael

/-! ## 1. Words as columns -/

/-- A word as a column: the lowest byte is on top. -/
def column (w : UInt32) : Column := ⟨w.toUInt8, (w >>> 8).toUInt8, (w >>> 16).toUInt8, (w >>> 24).toUInt8⟩

theorem column_xor (v w : UInt32) : column (v ^^^ w) = column v ^^^ column w := by
  ext <;> simp [column, UInt32.shiftRight_xor]

/-- Bytes with the same bits are the same. -/
theorem byte_ext {a b : UInt8} (h : ∀ i < 8, a.toBitVec.getLsbD i = b.toBitVec.getLsbD i) : a = b :=
  UInt8.toBitVec_inj.mp (BitVec.eq_of_getLsbD_eq h)

/-- The four bytes of `GET_ULONG_LE`. -/
theorem column_bytes (a b c d : UInt8) :
    column (a.toUInt32 ||| b.toUInt32 <<< 8 ||| c.toUInt32 <<< 16 ||| d.toUInt32 <<< 24) = ⟨a, b, c, d⟩ := by
  ext1 <;> refine byte_ext fun i hi => ?_ <;>
    simp (disch := omega) [column, decide_eq_true, decide_eq_false, BitVec.getLsbD_of_ge]

/-- The four bytes of a word in which a byte is put at each place. -/
theorem column_places (a b c d : UInt8) :
    column (a.toUInt32 ^^^ b.toUInt32 <<< 8 ^^^ c.toUInt32 <<< 16 ^^^ d.toUInt32 <<< 24) = ⟨a, b, c, d⟩ := by
  ext1 <;> refine byte_ext fun i hi => ?_ <;>
    simp (disch := omega) [column, decide_eq_true, decide_eq_false, BitVec.getLsbD_of_ge]

/-- `turned` moves every byte up by a place. -/
theorem column_turned (w : UInt32) : column (turned w) =
    ⟨(column w).b3, (column w).b0, (column w).b1, (column w).b2⟩ := by
  ext1 <;> refine byte_ext fun i hi => ?_ <;>
    simp (disch := omega) [column, turned, decide_eq_false, BitVec.getLsbD_of_ge] <;>
    congr 1 <;> omega

theorem and_255_toNat (x : UInt32) : (x &&& 0xFF).toNat = x.toUInt8.toNat := by
  rw [UInt32.toNat_and, UInt32.toNat_toUInt8]
  exact Nat.and_two_pow_sub_one_eq_mod x.toNat 8

theorem entry_eq (t : List UInt32) (x : UInt32) : entry t x = t.getD x.toUInt8.toNat 0 := by
  rw [entry, and_255_toNat]

theorem entryByte_eq (t : List UInt8) (x : UInt32) : entryByte t x = (t.getD x.toUInt8.toNat 0).toUInt32 := by
  rw [entryByte, and_255_toNat]

theorem getD_turned (t : List UInt32) (n : Nat) : (t.map turned).getD n 0 = turned (t.getD n 0) := by
  rw [List.getD_eq_getElem?_getD, List.getD_eq_getElem?_getD, List.getElem?_map]
  cases t[n]? <;> rfl

/-- The words of the two tables are the columns that the entries of the boxes give. -/
theorem words_entries :
    FT0.map column = (FSb.map fun s => ⟨xtime s, s, s, s ^^^ xtime s⟩) ∧
      RT0.map column = RSb.map fun s => ⟨xtime s ^^^ (xtime (xtime s) ^^^ xtime (xtime (xtime s))),
        s ^^^ xtime (xtime (xtime s)), s ^^^ (xtime (xtime s) ^^^ xtime (xtime (xtime s))),
        s ^^^ (xtime s ^^^ xtime (xtime (xtime s)))⟩ := by
  decide +kernel

theorem length_FT0 : FT0.length = 256 := by
  simpa [length_FSb] using congrArg List.length words_entries.1

theorem length_RT0 : RT0.length = 256 := by
  simpa [length_RSb] using congrArg List.length words_entries.2

theorem ft0_column (b : UInt8) : column (FT0.getD b.toNat 0) = Column.mix ⟨aesSbox.sub b, 0, 0, 0⟩ := by
  rw [getD_of_map words_entries.1 (toNat_lt_table length_FT0 b) 0 0, Column.mix_single, aesSbox]

theorem rt0_column (b : UInt8) : column (RT0.getD b.toNat 0) = Column.unmix ⟨aesSbox.inv b, 0, 0, 0⟩ := by
  rw [getD_of_map words_entries.2 (toNat_lt_table length_RT0 b) 0 0, Column.unmix_single, aesSbox]

/-- Tables of which each is the one before turned: if the first one multiplies the byte on top, the others
multiply those below it. -/
theorem column_tables {t : List UInt32} {p : Column} {f : UInt8 → UInt8}
    (h : ∀ b : UInt8, column (t.getD b.toNat 0) = Column.times p ⟨f b, 0, 0, 0⟩) (w x y z : UInt32) :
    column (entry t w ^^^ entry (t.map turned) x ^^^ entry ((t.map turned).map turned) y ^^^
      entry (((t.map turned).map turned).map turned) z) =
    Column.times p ⟨f w.toUInt8, f x.toUInt8, f y.toUInt8, f z.toUInt8⟩ := by
  have hturn (a b c d : UInt8) (v : UInt32) (hv : column v = Column.times p ⟨a, b, c, d⟩) :
      column (turned v) = Column.times p ⟨d, a, b, c⟩ := by
    rw [column_turned, hv]
    ext1 <;> simp only [Column.times] <;> ac_rfl
  have h0 (b : UInt8) := h b
  have h1 (b : UInt8) := hturn _ _ _ _ _ (h0 b)
  have h2 (b : UInt8) := hturn _ _ _ _ _ (h1 b)
  have h3 (b : UInt8) := hturn _ _ _ _ _ (h2 b)
  simp only [entry_eq, getD_turned, column_xor, h0, h1, h2, h3, ← Column.times_xor]
  congr 1
  ext1 <;> simp

/-- A word with a byte of the table at each place. -/
theorem column_entryBytes (t : List UInt8) (w x y z : UInt32) :
    column (entryByte t w ^^^ entryByte t x <<< 8 ^^^ entryByte t y <<< 16 ^^^ entryByte t z <<< 24) =
      ⟨t.getD w.toUInt8.toNat 0, t.getD x.toUInt8.toNat 0, t.getD y.toUInt8.toNat 0,
        t.getD z.toUInt8.toNat 0⟩ := by
  simp only [entryByte_eq, column_places]

/-! ## 2. Rounds -/

/-- The words of a block as its columns. -/
def Words.grid (y : Words) : Grid := ⟨column y.x0, column y.x1, column y.x2, column y.x3⟩

/-- The four words from `rk[p]` on as a round key. -/
def keyGrid (rk : List UInt32) (p : Nat) : Grid :=
  ⟨column (rk.getD p 0), column (rk.getD (p + 1) 0), column (rk.getD (p + 2) 0), column (rk.getD (p + 3) 0)⟩

variable {rk : List UInt32} {p : Nat} {y : Words}

/-- **A round of lookups is a round.** -/
theorem columns_aesFround : (aesFround rk p y).grid = (y.grid.scramble aesSbox).mixColumns ^^^ keyGrid rk p := by
  ext1 <;>
    simp only [Words.grid, aesFround, UInt32.xor_assoc, Grid.xor_c0, Grid.xor_c1, Grid.xor_c2, Grid.xor_c3] <;>
    rw [column_xor, Column.xor_comm, keyGrid, ← UInt32.xor_assoc, ← UInt32.xor_assoc] <;>
    exact congrArg (· ^^^ _) (column_tables ft0_column _ _ _ _)

/-- **A round of lookups back is a round back**, with a key that is mixed back. -/
theorem columns_aesRround : (aesRround rk p y).grid = (y.grid.unscramble aesSbox).invMixColumns ^^^ keyGrid rk p := by
  ext1 <;>
    simp only [Words.grid, aesRround, UInt32.xor_assoc, Grid.xor_c0, Grid.xor_c1, Grid.xor_c2, Grid.xor_c3] <;>
    rw [column_xor, Column.xor_comm, keyGrid, ← UInt32.xor_assoc, ← UInt32.xor_assoc] <;>
    exact congrArg (· ^^^ _) (column_tables rt0_column _ _ _ _)

theorem columns_aesFlast : (aesFlast rk p y).grid = y.grid.scramble aesSbox ^^^ keyGrid rk p := by
  ext1 <;>
    simp only [Words.grid, aesFlast, UInt32.xor_assoc, Grid.xor_c0, Grid.xor_c1, Grid.xor_c2, Grid.xor_c3] <;>
    rw [column_xor, Column.xor_comm, keyGrid, ← UInt32.xor_assoc, ← UInt32.xor_assoc] <;>
    exact congrArg (· ^^^ _) (column_entryBytes FSb _ _ _ _)

theorem columns_aesRlast : (aesRlast rk p y).grid = y.grid.unscramble aesSbox ^^^ keyGrid rk p := by
  ext1 <;>
    simp only [Words.grid, aesRlast, UInt32.xor_assoc, Grid.xor_c0, Grid.xor_c1, Grid.xor_c2, Grid.xor_c3] <;>
    rw [column_xor, Column.xor_comm, keyGrid, ← UInt32.xor_assoc, ← UInt32.xor_assoc] <;>
    exact congrArg (· ^^^ _) (column_entryBytes RSb _ _ _ _)

/-! ## 3. The schedule -/

/-- Column `i` of a row of bytes. -/
def columnAt (key : List UInt8) (i : Nat) : Column :=
  ⟨key.getD (4 * i) 0, key.getD (4 * i + 1) 0, key.getD (4 * i + 2) 0, key.getD (4 * i + 3) 0⟩

/-- The columns of the schedule for a key of `nk` of them. -/
def schedule (nk : Nat) (key : List UInt8) : Nat → Column := keyExpansion aesSbox nk (columnAt key)

/-- The words stand for so many columns from `a` on. -/
def Stands (rk : List UInt32) (w : Nat → Column) (a n : Nat) : Prop :=
  rk.map column = (List.range' a n).map w

theorem Stands.append {rk sk : List UInt32} {w : Nat → Column} {a m n : Nat} (h : Stands rk w a m)
    (h' : Stands sk w (a + m) n) : Stands (rk ++ sk) w a (m + n) := by
  unfold Stands at *
  rw [List.map_append, h, h', ← List.map_append, List.range'_append_1]

theorem Stands.word {rk : List UInt32} {w : Nat → Column} {a n i : Nat} (h : Stands rk w a n) (hi : i < n) :
    column (rk.getD i 0) = w (a + i) := by
  have hget := congrArg (fun l => l[i]?) h
  have hlen : rk.length = n := by simpa using congrArg List.length h
  have hlt : i < rk.length := hlen ▸ hi
  simpa [hlt, hi] using hget

/-- The words of the constants stand for them. -/
def StandsForRcon (rcons : List UInt32) (j : Nat) : Prop :=
  Stands rcons (fun i => ⟨rcon i, 0, 0, 0⟩) j rcons.length

theorem column_scheduleCore (rcon rk : UInt32) :
    column (scheduleCore rcon rk) = (column rk).rot.map aesSbox.sub ^^^ column rcon := by
  simp only [scheduleCore, UInt32.xor_assoc]
  rw [column_xor, Column.xor_comm, ← UInt32.xor_assoc, ← UInt32.xor_assoc, column_entryBytes]
  rfl

section Columns

variable {S : SBox} {nk i j : Nat} {c : Column}

theorem keyStep_turn (hnk : 0 < nk) :
    keyStep S nk (nk * j + nk) c = c.rot.map S.sub ^^^ ⟨rcon (j + 1), 0, 0, 0⟩ := by
  rw [keyStep, if_pos (by simp), ← Nat.mul_succ, Nat.mul_div_cancel_left _ hnk]

theorem keyStep_plain (hturn : i % nk ≠ 0) (hmid : ¬ (6 < nk ∧ i % nk = 4)) : keyStep S nk i c = c := by
  rw [keyStep, if_neg hturn, if_neg hmid]

theorem keyStep_middle (hturn : i % nk ≠ 0) (hmid : 6 < nk ∧ i % nk = 4) : keyStep S nk i c = c.map S.sub := by
  rw [keyStep, if_neg hturn, if_pos hmid]

end Columns

section Schedule

variable {w : Nat → Column} {nk n : Nat} {key : List UInt8}

/-- The column at the start of the next words. -/
theorem schedule_turn (hnk : 0 < nk) (j : Nat) : schedule nk key (nk * j + nk) =
    schedule nk key (nk * j) ^^^
      ((schedule nk key (nk * j + (nk - 1))).rot.map aesSbox.sub ^^^ ⟨rcon (j + 1), 0, 0, 0⟩) := by
  rw [schedule, keyExpansion_next _ hnk, keyStep_turn hnk, Nat.add_sub_assoc hnk]

/-- The others are added up, but for the one in the middle of eight. -/
theorem schedule_plain {t : Nat} (ht : 0 < t) (hlt : t < nk) (hmid : nk ≤ 6 ∨ t ≠ 4) (j : Nat) :
    schedule nk key (nk * j + nk + t) = schedule nk key (nk * j + t) ^^^ schedule nk key (nk * j + nk + (t - 1)) := by
  have hmod : (nk * j + t + nk) % nk = t := by
    rw [Nat.add_mod_right, Nat.mul_add_mod, Nat.mod_eq_of_lt hlt]
  rw [show nk * j + nk + t = nk * j + t + nk from by omega, schedule, keyExpansion_next _ (by omega),
    keyStep_plain (by omega) (by omega), show nk * j + t + nk - 1 = nk * j + nk + (t - 1) from by omega]

theorem schedule_middle (j : Nat) : schedule 8 key (8 * j + 8 + 4) =
    schedule 8 key (8 * j + 4) ^^^ (schedule 8 key (8 * j + 8 + 3)).map aesSbox.sub := by
  rw [show 8 * j + 8 + 4 = 8 * j + 4 + 8 from by omega, schedule, keyExpansion_next _ (by omega),
    keyStep_middle (by omega) (by omega), show 8 * j + 4 + 8 - 1 = 8 * j + 8 + 3 from by omega]

variable {rk : List UInt32} {c r : UInt32} {j t : Nat}

/-- The first of the next words. -/
theorem column_turn (hnk : 0 < nk) (h : Stands rk (schedule nk key) (nk * j) nk)
    (hc : column c = ⟨rcon (j + 1), 0, 0, 0⟩) :
    column (rk.getD 0 0 ^^^ scheduleCore c (rk.getD (nk - 1) 0)) = schedule nk key (nk * j + nk) := by
  rw [schedule_turn hnk, ← h.word (Nat.sub_lt hnk Nat.one_pos), column_xor, column_scheduleCore, h.word hnk, hc]
  rfl

/-- A word that is added to the one before it. -/
theorem column_plain (h : Stands rk (schedule nk key) (nk * j) nk) (ht : 0 < t) (hlt : t < nk)
    (hmid : nk ≤ 6 ∨ t ≠ 4) (hr : column r = schedule nk key (nk * j + nk + (t - 1))) :
    column (rk.getD t 0 ^^^ r) = schedule nk key (nk * j + nk + t) := by
  rw [schedule_plain ht hlt hmid, ← h.word hlt, ← hr, column_xor]

/-- The word in the middle of eight. -/
theorem column_middle (h : Stands rk (schedule 8 key) (8 * j) 8) (hr : column r = schedule 8 key (8 * j + 8 + 3)) :
    column (rk.getD 4 0 ^^^ entryByte FSb r ^^^ entryByte FSb (r >>> 8) <<< 8 ^^^
      entryByte FSb (r >>> 16) <<< 16 ^^^ entryByte FSb (r >>> 24) <<< 24) = schedule 8 key (8 * j + 8 + 4) := by
  rw [schedule_middle, ← h.word (by decide), ← hr]
  simp only [UInt32.xor_assoc]
  rw [column_xor, ← UInt32.xor_assoc, ← UInt32.xor_assoc, column_entryBytes]
  rfl

theorem scheduleTen_stands (h : Stands rk (schedule 4 key) (4 * j) 4)
    (hc : column c = ⟨rcon (j + 1), 0, 0, 0⟩) : Stands (scheduleTen c rk) (schedule 4 key) (4 * j + 4) 4 := by
  have h4 := column_turn (by decide) h hc
  have h5 := column_plain h (by decide : 0 < 1) (by decide) (by decide) h4
  have h6 := column_plain h (by decide : 0 < 2) (by decide) (by decide) h5
  have h7 := column_plain h (by decide : 0 < 3) (by decide) (by decide) h6
  simpa [Stands, scheduleTen, List.range'_succ] using ⟨h4, h5, h6, h7⟩

theorem scheduleTwelve_stands (h : Stands rk (schedule 6 key) (6 * j) 6)
    (hc : column c = ⟨rcon (j + 1), 0, 0, 0⟩) : Stands (scheduleTwelve c rk) (schedule 6 key) (6 * j + 6) 6 := by
  have h6 := column_turn (by decide) h hc
  have h7 := column_plain h (by decide : 0 < 1) (by decide) (by decide) h6
  have h8 := column_plain h (by decide : 0 < 2) (by decide) (by decide) h7
  have h9 := column_plain h (by decide : 0 < 3) (by decide) (by decide) h8
  have h10 := column_plain h (by decide : 0 < 4) (by decide) (by decide) h9
  have h11 := column_plain h (by decide : 0 < 5) (by decide) (by decide) h10
  simpa [Stands, scheduleTwelve, List.range'_succ] using ⟨h6, h7, h8, h9, h10, h11⟩

theorem scheduleFourteen_stands (h : Stands rk (schedule 8 key) (8 * j) 8)
    (hc : column c = ⟨rcon (j + 1), 0, 0, 0⟩) : Stands (scheduleFourteen c rk) (schedule 8 key) (8 * j + 8) 8 := by
  have h8 := column_turn (by decide) h hc
  have h9 := column_plain h (by decide : 0 < 1) (by decide) (by decide) h8
  have h10 := column_plain h (by decide : 0 < 2) (by decide) (by decide) h9
  have h11 := column_plain h (by decide : 0 < 3) (by decide) (by decide) h10
  have h12 := column_middle h h11
  have h13 := column_plain h (by decide : 0 < 5) (by decide) (by decide) h12
  have h14 := column_plain h (by decide : 0 < 6) (by decide) (by decide) h13
  have h15 := column_plain h (by decide : 0 < 7) (by decide) (by decide) h14
  simpa [Stands, scheduleFourteen, List.range'_succ] using ⟨h8, h9, h10, h11, h12, h13, h14, h15⟩

/-- **The loop** of the schedule, if its body goes on from every turn to the next one. -/
theorem scheduleLoop_stands {body : UInt32 → List UInt32 → List UInt32}
    (hbody : ∀ {c rk j}, Stands rk (schedule nk key) (nk * j) nk → column c = ⟨rcon (j + 1), 0, 0, 0⟩ →
      Stands (body c rk) (schedule nk key) (nk * j + nk) nk) : ∀ {rcons : List UInt32} {rk : List UInt32} {j : Nat},
    StandsForRcon rcons (j + 1) → Stands rk (schedule nk key) (nk * j) nk →
      Stands (scheduleLoop body rcons rk) (schedule nk key) (nk * j) (nk * (rcons.length + 1))
  | [], rk, j, _, h => by simpa [scheduleLoop] using h
  | c :: rcons, rk, j, hc, h => by
    have hsplit := hc
    simp only [StandsForRcon, Stands, List.length_cons, List.range'_succ, List.map_cons, List.cons.injEq] at hsplit
    have hrest := scheduleLoop_stands hbody hsplit.2 (by simpa [Nat.mul_succ] using hbody h hsplit.1)
    have hall := h.append (by simpa [Nat.mul_succ] using hrest)
    rw [scheduleLoop, List.length_cons, Nat.mul_succ nk (rcons.length + 1), Nat.add_comm _ nk]
    exact hall

/-- The words of the key. -/
theorem keyWords_stands (key : List UInt8) (n : Nat) (hn : n ≤ nk) : Stands (keyWords key n) (schedule nk key) 0 n := by
  unfold Stands keyWords
  rw [List.map_map, ← List.range_eq_range']
  refine List.map_congr_left fun i hi => ?_
  rw [schedule, keyExpansion_key _ (Nat.lt_of_lt_of_le (List.mem_range.mp hi) hn)]
  exact column_bytes _ _ _ _

end Schedule

/-- The constants of the rounds, from the first one on. -/
theorem rcons_stand (n : Nat) (hn : n ≤ 10) : StandsForRcon (RCON.take n) 1 := by
  have hall : ∀ n : Fin 11, (RCON.take n).map column =
      (List.range' 1 (RCON.take n).length).map fun i => ⟨rcon i, 0, 0, 0⟩ := by
    decide
  exact hall ⟨n, Nat.lt_succ_of_le hn⟩

theorem aesRoundsOf_cases {keysize : Int} {nr : Nat} (h : aesRoundsOf keysize = some nr) :
    keysize = 128 ∧ nr = 10 ∨ keysize = 192 ∧ nr = 12 ∨ keysize = 256 ∧ nr = 14 := by
  unfold aesRoundsOf at h
  split at h <;> simp_all

/-- **The schedule is the key expansion**, for a key of each of the three lengths. -/
theorem aesSetkeyEnc_columns (ctx : AesContext) (key : List UInt8) {keysize : Int} {nr : Nat}
    (h : aesRoundsOf keysize = some nr) : (aesSetkeyEnc ctx key keysize).nr = nr ∧ ∀ i < 4 * (nr + 1),
      column ((aesSetkeyEnc ctx key keysize).rk.getD i 0) = schedule (keysize / 32).toNat key i := by
  refine ⟨by rw [aesSetkeyEnc, h], ?_⟩
  intro i hi
  obtain ⟨rfl, rfl⟩ | ⟨rfl, rfl⟩ | ⟨rfl, rfl⟩ := aesRoundsOf_cases h
  · have hloop := scheduleLoop_stands scheduleTen_stands (rcons_stand 10 (by decide))
      (keyWords_stands key 4 (le_refl 4))
    have hword := hloop.word (i := i) hi
    rwa [Nat.mul_zero, Nat.zero_add] at hword
  · have hloop := scheduleLoop_stands scheduleTwelve_stands (rcons_stand 8 (by decide))
      (keyWords_stands key 6 (le_refl 6))
    have hword := hloop.word (i := i) (Nat.lt_of_lt_of_le hi (by decide))
    rwa [Nat.mul_zero, Nat.zero_add] at hword
  · have hloop := scheduleLoop_stands scheduleFourteen_stands (rcons_stand 7 (by decide))
      (keyWords_stands key 8 (le_refl 8))
    have hword := hloop.word (i := i) (Nat.lt_of_lt_of_le hi (by decide))
    rwa [Nat.mul_zero, Nat.zero_add] at hword

/-! ## 4. Blocks -/

/-- The bytes of a block as its columns. -/
def blockGrid (b : Bytes 16) : Grid :=
  ⟨columnAt b.toList 0, columnAt b.toList 1, columnAt b.toList 2, columnAt b.toList 3⟩

/-- A block is determined by its columns. -/
theorem blockGrid_inj {b b' : Bytes 16} (h : blockGrid b = blockGrid b') : b = b' := by
  simp only [blockGrid, columnAt, Grid.mk.injEq, Column.mk.injEq, Nat.mul_zero, Nat.mul_one, Nat.zero_add,
    Nat.reduceMul, Nat.reduceAdd] at h
  have hall : ∀ i < 16, b.toList.getD i 0 = b'.toList.getD i 0 := by
    intro i hi
    interval_cases i <;> simp only [h]
  refine List.Vector.toList_injective (List.ext_getElem (by simp) ?_)
  intro i hi hi'
  have hi16 := hall i (by simpa using hi)
  rwa [List.getD_eq_getElem?_getD, List.getD_eq_getElem?_getD, List.getElem?_eq_getElem hi,
    List.getElem?_eq_getElem hi'] at hi16

/-- The round keys in the order in which they are taken. -/
def KeysAre (rk : List UInt32) (key : Nat → Grid) (nr : Nat) : Prop := ∀ r ≤ nr, keyGrid rk (4 * r) = key r

/-- What every round keeps, the rounds two by two keep: `P t` is what holds after `t` rounds. -/
theorem aesRoundLoop_invariant {round : Nat → Words → Words} {P : Nat → Words → Prop} {n : Nat}
    (hstep : ∀ t y, t < n → P t y → P (t + 1) (round (4 * (t + 1)) y)) : ∀ {i t : Nat} {x : Words},
      t + 2 * i ≤ n → P t x → P (t + 2 * i) (aesRoundLoop round i (4 * (t + 1)) x)
  | 0, _, _, _, h => h
  | i + 1, t, x, hn, h => by
    have htwo := hstep (t + 1) _ (by omega) (hstep t x (by omega) h)
    have hrest := aesRoundLoop_invariant hstep (i := i) (t := t + 2) (by omega) htwo
    rwa [show t + 2 + 2 * i = t + 2 * (i + 1) from by omega] at hrest

/-- The bytes of the four words. -/
theorem blockGrid_put (x : Words) :
    blockGrid ⟨putUlongLe x.x0 ++ putUlongLe x.x1 ++ putUlongLe x.x2 ++ putUlongLe x.x3, rfl⟩ = x.grid := rfl

section Block

variable {ctx : AesContext} {w : Nat → Column} {key : Nat → Grid} {i : Nat} {input : Bytes 16}

/-- The first key is added to the block. -/
theorem start_grid (rk : List UInt32) (input : Bytes 16) : (⟨getUlongLe input.toList 0 ^^^ rk.getD 0 0, getUlongLe input.toList 4 ^^^ rk.getD 1 0,
    getUlongLe input.toList 8 ^^^ rk.getD 2 0, getUlongLe input.toList 12 ^^^ rk.getD 3 0⟩ : Words).grid =
      blockGrid input ^^^ keyGrid rk 0 := by
  ext1 <;> exact (column_xor _ _).trans (congrArg (· ^^^ _) (column_bytes _ _ _ _))

/-- **Enciphering**, with the round keys in their order. -/
theorem aesCryptEcb_encrypt (input : Bytes 16) (hnr : ctx.nr = 2 * i + 2) (hkeys : KeysAre ctx.rk (roundKey w) ctx.nr) :
    blockGrid (aesCryptEcb ctx aesEncrypt input) = cipher aesSbox w ctx.nr (blockGrid input) := by
  have hstep (t : Nat) (y : Words) (ht : t < ctx.nr) (hy : y.grid = rounds aesSbox w t (blockGrid input)) :
      (aesFround ctx.rk (4 * (t + 1)) y).grid = rounds aesSbox w (t + 1) (blockGrid input) := by
    rw [columns_aesFround, hy, hkeys (t + 1) ht, rounds]
  have hi : ctx.nr / 2 - 1 = i := by omega
  have hstart := start_grid ctx.rk input
  rw [hkeys 0 (Nat.zero_le _)] at hstart
  have hloop := aesRoundLoop_invariant hstep (i := i) (t := 0) (by omega) hstart
  have hlast := hstep _ _ (by omega) hloop
  rw [aesCryptEcb]
  simp only [hi, aesEncrypt, aesDecrypt, Nat.one_ne_zero, if_false]
  rw [blockGrid_put, columns_aesFlast, show 8 * i + 8 = 4 * ctx.nr from by omega, hkeys _ (le_refl _), cipher,
    show 8 * i + 4 = 4 * (0 + 2 * i + 1) from by omega, hlast, show 0 + 2 * i + 1 = ctx.nr - 1 from by omega]

/-- The round keys for deciphering: from the last one to the first, those in between mixed back. -/
def invKey (w : Nat → Column) (nr r : Nat) : Grid :=
  if r = 0 then roundKey w nr else if r = nr then roundKey w 0 else (roundKey w (nr - r)).invMixColumns

/-- **Deciphering**, with the round keys for it in their order. -/
theorem aesCryptEcb_decrypt (input : Bytes 16) (hnr : ctx.nr = 2 * i + 2) (hkeys : KeysAre ctx.rk (invKey w ctx.nr) ctx.nr) :
    blockGrid (aesCryptEcb ctx aesDecrypt input) = invCipher aesSbox w ctx.nr (blockGrid input) := by
  -- the rounds that are left do the same to the words as all of them to the block
  have hstep (t : Nat) (y : Words) (ht : t < ctx.nr - 1)
      (hy : invRounds aesSbox w (ctx.nr - 1 - t) y.grid =
        invRounds aesSbox w (ctx.nr - 1) (blockGrid input ^^^ roundKey w ctx.nr)) :
      invRounds aesSbox w (ctx.nr - 1 - (t + 1)) (aesRround ctx.rk (4 * (t + 1)) y).grid =
        invRounds aesSbox w (ctx.nr - 1) (blockGrid input ^^^ roundKey w ctx.nr) := by
    rw [← hy, columns_aesRround, hkeys (t + 1) (by omega), invKey, if_neg (by omega), if_neg (by omega),
      ← Grid.invMixColumns_xor, show ctx.nr - 1 - t = ctx.nr - 1 - (t + 1) + 1 from by omega, invRounds,
      show ctx.nr - 1 - (t + 1) + 1 = ctx.nr - (t + 1) from by omega]
  have hi : ctx.nr / 2 - 1 = i := by omega
  have hstart := start_grid ctx.rk input
  rw [hkeys 0 (Nat.zero_le _), invKey, if_pos rfl] at hstart
  have hloop := aesRoundLoop_invariant hstep (i := i) (t := 0) (by omega) (by rw [hstart, Nat.sub_zero])
  have hlast := hstep _ _ (by omega) hloop
  rw [show ctx.nr - 1 - (0 + 2 * i + 1) = 0 from by omega, invRounds] at hlast
  rw [aesCryptEcb]
  simp only [hi, if_true]
  rw [blockGrid_put, columns_aesRlast, show 8 * i + 8 = 4 * ctx.nr from by omega, hkeys _ (le_refl _), invCipher,
    show 8 * i + 4 = 4 * (0 + 2 * i + 1) from by omega, hlast, invKey, if_neg (by omega), if_pos rfl]

end Block

/-! ## 5. The keys for deciphering -/

/-- The lookup in the S-box before the table that looks up in the other one. -/
theorem inv_entryByte (x : UInt32) : aesSbox.inv (entryByte FSb x).toUInt8 = x.toUInt8 := by
  rw [entryByte_eq, UInt8.toUInt8_toUInt32]
  exact aesSbox.inv_sub x.toUInt8

theorem column_invScheduleWord (sk : UInt32) : column (invScheduleWord sk) = (column sk).unmix := by
  refine (column_tables rt0_column _ _ _ _).trans ?_
  simp only [inv_entryByte]
  rfl

theorem keyGrid_four (sk rest : List UInt32) (p : Nat) : keyGrid (fourWords sk p ++ rest) 0 = keyGrid sk p := rfl

theorem keyGrid_mixed (sk rest : List UInt32) (p : Nat) :
    keyGrid ((fourWords sk p).map invScheduleWord ++ rest) 0 = (keyGrid sk p).invMixColumns := by
  ext1 <;> exact column_invScheduleWord _

theorem keyGrid_append {a rest : List UInt32} {p : Nat} : keyGrid (a ++ rest) (a.length + p) = keyGrid rest p := by
  simp only [keyGrid, List.getD_eq_getElem?_getD, Nat.add_assoc, List.getElem?_append_right (Nat.le_add_right _ _),
    Nat.add_sub_cancel_left]

theorem length_invScheduleLoop (sk : List UInt32) : ∀ i, (invScheduleLoop sk i).length = 4 * i
  | 0 => rfl
  | i + 1 => by
    rw [invScheduleLoop, List.length_append, length_invScheduleLoop sk i]
    simp [fourWords]
    omega

/-- The loop goes down over the round keys. -/
theorem keyGrid_invScheduleLoop {sk rest : List UInt32} : ∀ {i u : Nat}, u < i →
    keyGrid (invScheduleLoop sk i ++ rest) (4 * u) = (keyGrid sk (4 * (i - u))).invMixColumns
  | i + 1, 0, _ => by
    rw [invScheduleLoop, List.append_assoc]
    exact keyGrid_mixed _ _ _
  | i + 1, u + 1, h => by
    have hlen : ((fourWords sk (4 * (i + 1))).map invScheduleWord).length = 4 := rfl
    rw [invScheduleLoop, List.append_assoc, show 4 * (u + 1) =
      ((fourWords sk (4 * (i + 1))).map invScheduleWord).length + 4 * u from by rw [hlen]; omega, keyGrid_append,
      keyGrid_invScheduleLoop (Nat.lt_of_succ_lt_succ h), Nat.succ_sub_succ]

variable {ctx ctx' : AesContext} {bytes : List UInt8} {keysize : Int} {nr : Nat} {input : Bytes 16}

theorem keysAre_enc (ctx : AesContext) (bytes : List UInt8) (h : aesRoundsOf keysize = some nr) :
    KeysAre (aesSetkeyEnc ctx bytes keysize).rk (roundKey (schedule (keysize / 32).toNat bytes)) nr := by
  intro r hr
  obtain ⟨-, hw⟩ := aesSetkeyEnc_columns ctx bytes h
  ext1 <;> exact hw _ (by omega)

/-- **The keys for deciphering** are those for enciphering from the last one to the first, and mixed back. -/
theorem keysAre_dec (ctx : AesContext) (bytes : List UInt8) (h : aesRoundsOf keysize = some nr) :
    KeysAre (aesSetkeyDec ctx bytes keysize).rk (invKey (schedule (keysize / 32).toNat bytes) nr) nr := by
  intro r hr
  have henc := keysAre_enc ctx bytes h
  obtain ⟨hnr, -⟩ := aesSetkeyEnc_columns ctx bytes h
  have hpos : 2 ≤ nr := by
    obtain ⟨-, rfl⟩ | ⟨-, rfl⟩ | ⟨-, rfl⟩ := aesRoundsOf_cases h <;> decide
  simp only [aesSetkeyDec, h, hnr, List.append_assoc]
  have hlen : (fourWords (aesSetkeyEnc ctx bytes keysize).rk (nr * 4)).length = 4 := rfl
  rcases Nat.eq_zero_or_pos r with rfl | hr0
  · rw [invKey, if_pos rfl, Nat.mul_zero, keyGrid_four, Nat.mul_comm, henc nr (le_refl nr)]
  · rw [show 4 * r = (fourWords (aesSetkeyEnc ctx bytes keysize).rk (nr * 4)).length + 4 * (r - 1) from by
      rw [hlen]; omega, keyGrid_append, invKey, if_neg (by omega)]
    rcases Nat.lt_or_ge r nr with hlt | hge
    · rw [keyGrid_invScheduleLoop (by omega), if_neg (by omega), show nr - 1 - (r - 1) = nr - r from by omega,
        henc _ (by omega)]
    · have hlast : 4 * (r - 1) = (invScheduleLoop (aesSetkeyEnc ctx bytes keysize).rk (nr - 1)).length + 0 := by
        rw [length_invScheduleLoop]
        omega
      rw [hlast, keyGrid_append, if_pos (by omega), ← henc 0 (Nat.zero_le _), Nat.mul_zero]
      exact keyGrid_four _ [] 0

/-- `nr` is even, so that two rounds at a time come out. -/
theorem aesRoundsOf_even (h : aesRoundsOf keysize = some nr) : ∃ i, nr = 2 * i + 2 := by
  obtain ⟨-, rfl⟩ | ⟨-, rfl⟩ | ⟨-, rfl⟩ := aesRoundsOf_cases h
  exacts [⟨4, rfl⟩, ⟨5, rfl⟩, ⟨6, rfl⟩]

theorem nr_aesSetkeyEnc (ctx : AesContext) (bytes : List UInt8) (h : aesRoundsOf keysize = some nr) : (aesSetkeyEnc ctx bytes keysize).nr = nr :=
  (aesSetkeyEnc_columns ctx bytes h).1

theorem nr_aesSetkeyDec (ctx : AesContext) (bytes : List UInt8) (h : aesRoundsOf keysize = some nr) : (aesSetkeyDec ctx bytes keysize).nr = nr := by
  simp only [aesSetkeyDec, h]

theorem encrypt_grid (h : aesRoundsOf keysize = some nr) :
    blockGrid (aesCryptEcb (aesSetkeyEnc ctx bytes keysize) aesEncrypt input) =
      cipher aesSbox (schedule (keysize / 32).toNat bytes) nr (blockGrid input) := by
  obtain ⟨i, hi⟩ := aesRoundsOf_even h
  have hnr := nr_aesSetkeyEnc ctx bytes h
  have hall := aesCryptEcb_encrypt input (hnr.trans hi) (hnr.symm ▸ keysAre_enc ctx bytes h)
  rwa [hnr] at hall

theorem decrypt_grid (h : aesRoundsOf keysize = some nr) :
    blockGrid (aesCryptEcb (aesSetkeyDec ctx bytes keysize) aesDecrypt input) =
      invCipher aesSbox (schedule (keysize / 32).toNat bytes) nr (blockGrid input) := by
  obtain ⟨i, hi⟩ := aesRoundsOf_even h
  have hnr := nr_aesSetkeyDec ctx bytes h
  have hall := aesCryptEcb_decrypt input (hnr.trans hi) (hnr.symm ▸ keysAre_dec ctx bytes h)
  rwa [hnr] at hall

theorem decrypt_encrypt (h : aesRoundsOf keysize = some nr) :
    aesCryptEcb (aesSetkeyDec ctx bytes keysize) aesDecrypt
      (aesCryptEcb (aesSetkeyEnc ctx' bytes keysize) aesEncrypt input) = input :=
  blockGrid_inj (by rw [decrypt_grid h, encrypt_grid h, invCipher_cipher])

theorem encrypt_decrypt (h : aesRoundsOf keysize = some nr) :
    aesCryptEcb (aesSetkeyEnc ctx' bytes keysize) aesEncrypt
      (aesCryptEcb (aesSetkeyDec ctx bytes keysize) aesDecrypt input) = input :=
  blockGrid_inj (by rw [encrypt_grid h, decrypt_grid h, cipher_invCipher])

/-- **The tables compute Rijndael**: under every key of one of the three lengths, whatever the context held,
the words of the schedule are the expanded key, `aes_crypt_ecb` is the cipher with it, and with the keys for
deciphering the cipher back. -/
theorem aesCryptEcb_is_rijndael (ctx : AesContext) (bytes : List UInt8) (keysize : Int) (nr : Nat)
    (h : aesRoundsOf keysize = some nr) (input : Bytes 16) :
    (∀ b, IsInverse b (beforeAffine (aesSbox.sub b)) ∧ aesSbox.sub b = affine (beforeAffine (aesSbox.sub b))) ∧
      ((aesSetkeyEnc ctx bytes keysize).nr = nr ∧ ∀ i < 4 * (nr + 1),
        column ((aesSetkeyEnc ctx bytes keysize).rk.getD i 0) = schedule (keysize / 32).toNat bytes i) ∧
      blockGrid (aesCryptEcb (aesSetkeyEnc ctx bytes keysize) aesEncrypt input) =
        cipher aesSbox (schedule (keysize / 32).toNat bytes) nr (blockGrid input) ∧
      blockGrid (aesCryptEcb (aesSetkeyDec ctx bytes keysize) aesDecrypt input) =
        invCipher aesSbox (schedule (keysize / 32).toNat bytes) nr (blockGrid input) :=
  ⟨fsb_affine, aesSetkeyEnc_columns ctx bytes h, encrypt_grid h, decrypt_grid h⟩

/-- A key of 16 bytes. -/
theorem aesCryptEcb_is_rijndael_short :
    (∀ b, IsInverse b (beforeAffine (aesSbox.sub b)) ∧ aesSbox.sub b = affine (beforeAffine (aesSbox.sub b))) ∧
      ((aesSetkeyEnc ⟨0, []⟩ (List.replicate 16 7) 128).nr = 10 ∧ ∀ i < 44,
        column ((aesSetkeyEnc ⟨0, []⟩ (List.replicate 16 7) 128).rk.getD i 0) =
          schedule 4 (List.replicate 16 7) i) ∧
      blockGrid (aesCryptEcb (aesSetkeyEnc ⟨0, []⟩ (List.replicate 16 7) 128) aesEncrypt (Bytes.zero 16)) =
        cipher aesSbox (schedule 4 (List.replicate 16 7)) 10 (blockGrid (Bytes.zero 16)) ∧
      blockGrid (aesCryptEcb (aesSetkeyDec ⟨0, []⟩ (List.replicate 16 7) 128) aesDecrypt (Bytes.zero 16)) =
        invCipher aesSbox (schedule 4 (List.replicate 16 7)) 10 (blockGrid (Bytes.zero 16)) :=
  aesCryptEcb_is_rijndael ⟨0, []⟩ (List.replicate 16 7) 128 10 rfl (Bytes.zero 16)

/-- **The two directions are inverse to each other**, with contexts that are set to the same key. -/
theorem aesCryptEcb_inverse (ctx ctx' : AesContext) (bytes : List UInt8) (keysize : Int) (nr : Nat)
    (h : aesRoundsOf keysize = some nr) :
    Function.LeftInverse (aesCryptEcb (aesSetkeyDec ctx bytes keysize) aesDecrypt)
        (aesCryptEcb (aesSetkeyEnc ctx' bytes keysize) aesEncrypt) ∧
      Function.RightInverse (aesCryptEcb (aesSetkeyDec ctx bytes keysize) aesDecrypt)
        (aesCryptEcb (aesSetkeyEnc ctx' bytes keysize) aesEncrypt) :=
  ⟨fun _ => decrypt_encrypt h, fun _ => encrypt_decrypt h⟩

/-- The longest keys. -/
theorem aesCryptEcb_inverse_long :
    Function.LeftInverse (aesCryptEcb (aesSetkeyDec ⟨0, []⟩ (List.replicate 32 7) 256) aesDecrypt)
        (aesCryptEcb (aesSetkeyEnc ⟨0, []⟩ (List.replicate 32 7) 256) aesEncrypt) ∧
      Function.RightInverse (aesCryptEcb (aesSetkeyDec ⟨0, []⟩ (List.replicate 32 7) 256) aesDecrypt)
        (aesCryptEcb (aesSetkeyEnc ⟨0, []⟩ (List.replicate 32 7) 256) aesEncrypt) :=
  aesCryptEcb_inverse ⟨0, []⟩ ⟨0, []⟩ (List.replicate 32 7) 256 14 rfl

end AndixOs.Crypto
