/-
# `sha2_process` is the compression function

`sha2.c` turns words by shifts, has `F0` and `F1` with fewer operations than the standard, and makes
the words of the schedule as it goes.  With words as `BitVec 32` this is `Sha2.compress`, and the
numbers in the file are those of the standard.

* `sha2Process_eq`: one block;
* `sha2Blocks_hash`: all blocks of a message;
* `roundConstant_fraction`: the constants of the rounds.
-/
import AndixOs.Lib.Sha2
import AndixOs.Trustlet.Sha2

namespace AndixOs.Crypto

open Trustlet

/-! ## 1. Words -/

variable {i t : Nat}

/-- `ROTR` turns a word. -/
theorem rotr_word (x : UInt32) {n : UInt32} (hpos : 0 < n.toNat) (hn : n.toNat < 32) :
    (rotr x n).toBitVec = x.toBitVec.rotateRight n.toNat := by
  have hright : n.toNat % 32 = n.toNat := Nat.mod_eq_of_lt hn
  have hleft : (4294967296 - n.toNat) % 32 = 32 - n.toNat := by omega
  simp [rotr, BitVec.rotateRight_def, hright, hleft]

theorem s0_word (x : UInt32) : (s0 x).toBitVec = Sha2.smallSigma0 x.toBitVec := by
  rw [s0, UInt32.toBitVec_xor, UInt32.toBitVec_xor]
  simp (disch := decide) only [rotr_word]
  rfl

theorem s1_word (x : UInt32) : (s1 x).toBitVec = Sha2.smallSigma1 x.toBitVec := by
  rw [s1, UInt32.toBitVec_xor, UInt32.toBitVec_xor]
  simp (disch := decide) only [rotr_word]
  rfl

theorem s2_word (x : UInt32) : (s2 x).toBitVec = Sha2.bigSigma0 x.toBitVec := by
  rw [s2, UInt32.toBitVec_xor, UInt32.toBitVec_xor]
  simp (disch := decide) only [rotr_word]
  rfl

theorem s3_word (x : UInt32) : (s3 x).toBitVec = Sha2.bigSigma1 x.toBitVec := by
  rw [s3, UInt32.toBitVec_xor, UInt32.toBitVec_xor]
  simp (disch := decide) only [rotr_word]
  rfl

theorem f0_word (x y z : UInt32) :
    (f0 x y z).toBitVec = Sha2.maj x.toBitVec y.toBitVec z.toBitVec := by
  refine BitVec.eq_of_getLsbD_eq fun i _ => ?_
  simp only [f0, Sha2.maj, UInt32.toBitVec_or, UInt32.toBitVec_and, BitVec.getLsbD_or,
    BitVec.getLsbD_and, BitVec.getLsbD_xor]
  cases x.toBitVec.getLsbD i <;> cases y.toBitVec.getLsbD i <;> cases z.toBitVec.getLsbD i <;> rfl

theorem f1_word (x y z : UInt32) :
    (f1 x y z).toBitVec = Sha2.ch x.toBitVec y.toBitVec z.toBitVec := by
  refine BitVec.eq_of_getLsbD_eq fun i hi => ?_
  simp only [f1, Sha2.ch, UInt32.toBitVec_xor, UInt32.toBitVec_and, BitVec.getLsbD_not,
    BitVec.getLsbD_and, BitVec.getLsbD_xor, hi, decide_true, Bool.true_and]
  cases x.toBitVec.getLsbD i <;> cases y.toBitVec.getLsbD i <;> cases z.toBitVec.getLsbD i <;> rfl

/-- The words `A` to `H`. -/
def words (s : Sha2State) : Sha2.State :=
  ⟨s.a.toBitVec, s.b.toBitVec, s.c.toBitVec, s.d.toBitVec, s.e.toBitVec, s.f.toBitVec, s.g.toBitVec,
    s.h.toBitVec⟩

/-- The macro `P` is a round. -/
theorem words_round (s : Sha2State) (x k : UInt32) :
    words (s.round x k) = (words s).round k.toBitVec x.toBitVec := by
  simp only [words, Sha2State.round, Sha2.State.round, UInt32.toBitVec_add, s2_word, s3_word, f0_word,
    f1_word]

/-! ## 2. A block -/

/-- The macro `R` makes the next word of the schedule. -/
theorem nextWord_word {w : List UInt32} {m : Nat → Sha2.Word}
    (hw : ∀ i < 16, (w.getD i 0).toBitVec = Sha2.schedule m (t + i)) :
    (nextWord w).toBitVec = Sha2.schedule m (t + 16) := by
  rw [Sha2.schedule_next, nextWord, UInt32.toBitVec_add, UInt32.toBitVec_add, UInt32.toBitVec_add,
    s0_word, s1_word, hw 14 (by decide), hw 9 (by decide), hw 1 (by decide), hw 0 (by decide)]
  rfl

/-- The words that come next, without the first and with the new one. -/
theorem getD_moved {w : List UInt32} (x : UInt32) (hlen : w.length = 16) (hi : i < 16) :
    (w.tail ++ [x]).getD i 0 = if i = 15 then x else w.getD (i + 1) 0 := by
  have htail : w.tail.length = 15 := by rw [List.length_tail, hlen]
  rw [List.getD_eq_getElem?_getD, List.getD_eq_getElem?_getD]
  split
  · rename_i h15
    rw [List.getElem?_append_right (by omega), htail, h15]
    rfl
  · rw [List.getElem?_append_left (by omega), List.getElem?_tail]

/-- **The rounds**, with the next sixteen words of the schedule at each. -/
theorem sha2Rounds_eq {m k : Nat → Sha2.Word} : ∀ {ks w : List UInt32} {t : Nat} {s : Sha2State},
    w.length = 16 → (∀ i < 16, (w.getD i 0).toBitVec = Sha2.schedule m (t + i)) →
      (∀ i < ks.length, (ks.getD i 0).toBitVec = k (t + i)) →
      words (sha2Rounds ks w s) =
        Sha2.rounds k (Sha2.schedule m) (words s) (List.range' t ks.length)
  | [], _, _, _, _, _, _ => rfl
  | c :: ks, w, t, s, hlen, hw, hk => by
    have hlen' : (w.tail ++ [nextWord w]).length = 16 := by simp [hlen]
    have hw' : ∀ i < 16, ((w.tail ++ [nextWord w]).getD i 0).toBitVec =
        Sha2.schedule m (t + 1 + i) := by
      intro i hi
      rw [getD_moved _ hlen hi]
      split
      · rename_i h15
        rw [nextWord_word hw, h15]
      · rw [hw (i + 1) (by omega), Nat.add_right_comm, Nat.add_assoc]
    have hk' : ∀ i < ks.length, (ks.getD i 0).toBitVec = k (t + 1 + i) := by
      intro i hi
      have hnext := hk (i + 1) (Nat.succ_lt_succ hi)
      rwa [List.getD_cons_succ, ← Nat.add_assoc, Nat.add_right_comm] at hnext
    have hc : c.toBitVec = k t := hk 0 (Nat.succ_pos _)
    have hx : (w.headD 0).toBitVec = Sha2.schedule m t := by
      have hfirst := hw 0 (by decide)
      rwa [List.getD_eq_getElem?_getD, ← List.head?_eq_getElem?, ← List.headD_eq_head?_getD] at hfirst
    rw [sha2Rounds, sha2Rounds_eq hlen' hw' hk', words_round, hc, hx, List.length_cons,
      List.range'_succ]
    rfl

/-- `GET_ULONG_BE`. -/
theorem bytes_word (a b c d : UInt8) :
    (a.toUInt32 <<< 24 ||| b.toUInt32 <<< 16 ||| c.toUInt32 <<< 8 ||| d.toUInt32).toBitVec =
      a.toBitVec ++ b.toBitVec ++ c.toBitVec ++ d.toBitVec := by
  refine BitVec.eq_of_getLsbD_eq fun i hi => ?_
  have happend : (a.toBitVec ++ b.toBitVec ++ c.toBitVec ++ d.toBitVec).getLsbD i =
      if i < 8 then d.toBitVec.getLsbD i else
        if i - 8 < 8 then c.toBitVec.getLsbD (i - 8) else
          if i - 8 - 8 < 8 then b.toBitVec.getLsbD (i - 8 - 8)
          else a.toBitVec.getLsbD (i - 8 - 8 - 8) := by
    rw [BitVec.getLsbD_append, BitVec.getLsbD_append, BitVec.getLsbD_append]
  refine Eq.trans ?_ happend.symm
  rcases Nat.lt_or_ge i 8 with h | h
  · simp (disch := omega) [decide_eq_true, if_pos]
  rcases Nat.lt_or_ge i 16 with h' | h'
  · simp (disch := omega) [decide_eq_true, decide_eq_false, if_pos, if_neg, BitVec.getLsbD_of_ge]
  rcases Nat.lt_or_ge i 24 with h'' | h''
  · simp (disch := omega) [decide_eq_true, decide_eq_false, if_pos, if_neg, BitVec.getLsbD_of_ge,
      Nat.sub_sub]
  · simp (disch := omega) [decide_eq_false, if_neg, BitVec.getLsbD_of_ge, Nat.sub_sub]

theorem length_getWords : ∀ (n : Nat) (data : List UInt8), (getWords n data).length = n
  | 0, _ => rfl
  | n + 1, data => by rw [getWords, List.length_cons, length_getWords n]

/-- It reads the words of a block. -/
theorem getWords_word : ∀ {n : Nat} {data : List UInt8} {i : Nat}, i < n →
    ((getWords n data).getD i 0).toBitVec = Sha2.wordAt data i
  | n + 1, data, 0, _ => bytes_word _ _ _ _
  | n + 1, data, i + 1, hi => by
    have hdrop : ∀ j, (data.drop 4).getD (4 * i + j) 0 = data.getD (4 * (i + 1) + j) 0 := by
      intro j
      rw [List.getD_eq_getElem?_getD, List.getElem?_drop, ← List.getD_eq_getElem?_getD]
      congr 1
      omega
    rw [getWords, List.getD_cons_succ, getWords_word (Nat.lt_of_succ_lt_succ hi), Sha2.wordAt,
      Sha2.wordAt, hdrop 1, hdrop 2, hdrop 3]
    exact congrArg (fun x : UInt8 => x.toBitVec ++ _ ++ _ ++ _) (hdrop 0)

/-- The constant of a round. -/
def roundConstant (t : Nat) : Sha2.Word := (roundConstants.getD t 0).toBitVec

/-- **`sha2_process`** is the compression function. -/
theorem sha2Process_eq (s : Sha2State) (data : List UInt8) :
    words (sha2Process s data) = Sha2.compress roundConstant (words s) data := by
  have hrounds : words (sha2Rounds roundConstants (getWords 16 data) s) =
      Sha2.rounds roundConstant (Sha2.schedule (Sha2.wordAt data)) (words s) (List.range' 0 64) := by
    refine sha2Rounds_eq (length_getWords 16 data) (fun i hi => ?_) fun i _ => ?_
    · rw [Nat.zero_add, getWords_word hi, Sha2.schedule_of_lt hi]
    · rw [Nat.zero_add, roundConstant]
  rw [Sha2.compress, List.range_eq_range', ← hrounds]
  simp only [words, sha2Process, Sha2.State.add, UInt32.toBitVec_add]

/-! ## 3. A message -/

/-- The model of the trustlets goes over the same blocks. -/
theorem sha2Blocks_eq : sha2Blocks = foldBlocks sha2Process 64 := by
  -- by the two recursions, so that no block is hashed
  delta sha2Blocks foldBlocks
  rfl

/-- All blocks, one after the other. -/
theorem sha2Blocks_words (n : Nat) (data : List UInt8) (s : Sha2State) :
    words (sha2Blocks n data s) = foldBlocks (Sha2.compress roundConstant) 64 n data (words s) := by
  rw [sha2Blocks_eq]
  exact foldBlocks_map words sha2Process_eq n data s

/-- What `sha2_finish` puts behind a message. -/
theorem sha2Padding_eq (len : Nat) : sha2Padding len = Sha2.padding len := by
  have hzeros : (if len % 64 < 56 then 56 - len % 64 else 120 - len % 64) - 1 =
      (119 - len % 64) % 64 := by
    split <;> omega
  rw [sha2Padding, Sha2.padding, Nat.mul_comm 8 len, ← hzeros]

/-- **A whole message.** -/
theorem sha2Blocks_hash (msg : List UInt8) (s : Sha2State) :
    words (sha2Blocks ((msg ++ sha2Padding msg.length).length / 64) (msg ++ sha2Padding msg.length) s) =
      Sha2.hash roundConstant (words s) msg := by
  rw [sha2Blocks_words, sha2Padding_eq, Sha2.hash]

/-! ## 4. The constants -/

/-- The constants of the rounds are those of the standard. -/
theorem roundConstant_fraction {t : Nat} (ht : t < 64) :
    Sha2.IsRootFraction 3 32 (Sha2.primes.getD t 0) (roundConstant t) := by
  have hroots : ∀ t < 64, ∃ whole < 7,
      (whole * 2 ^ 32 + (roundConstant t).toNat) ^ 3 ≤ Sha2.primes.getD t 0 * 2 ^ (32 * 3) ∧
        Sha2.primes.getD t 0 * 2 ^ (32 * 3) < (whole * 2 ^ 32 + (roundConstant t).toNat + 1) ^ 3 := by
    rw [Sha2.primes_eq]
    decide +kernel
  obtain ⟨whole, -, hle, hlt⟩ := hroots t ht
  exact Sha2.IsRootFraction.of_word whole hle hlt

end AndixOs.Crypto
