/-
# SHA-256 in parts

`sha2.c` of TropicSSL hashes a message of which it is given one part after the other.  A context has a buffer for
what does not fill a block, and counts the bytes in two words.  The trustlets' model of the same functions keeps
the whole message instead (`Sha2.lean`); this file has the context as it is.

* `sha2Update_streamed`: `sha2_update` keeps the count, the state and the buffer in step with the message,
  however it is cut, and however long it is;
* `digest_sha2`, `standard`: the digest of a whole message is that of SHA-2, with the numbers of the standard;
* `sha2_parts`: the digest is that of the whole message;
* `sha2Hmac_parts`: the three functions for HMAC make HMAC.
-/
import AndixOs.Crypto.Sha2Process

namespace AndixOs.Crypto

open Trustlet (Sha2State sha2Process sha2Initial putUlongBe)

/-! ## 1. The functions -/

/-- `sha2_context`; `is224` is asked for being 0 only. -/
structure Sha2Context where
  total0 : UInt32
  total1 : UInt32
  state : Sha2State
  buffer : Bytes 64
  ipad : Bytes 64
  opad : Bytes 64
  is224 : Bool

/-- The words that SHA-224 begins with. -/
def sha224Initial : Sha2State :=
  ⟨0xC1059ED8, 0x367CD507, 0x3070DD17, 0xF70E5939, 0xFFC00B31, 0x68581511, 0x64F98FA7, 0xBEFA4FA4⟩

def initialState (is224 : Bool) : Sha2State := if is224 then sha224Initial else sha2Initial

/-- `sha2_starts`. -/
def sha2Starts (ctx : Sha2Context) (is224 : Bool) : Sha2Context :=
  { ctx with total0 := 0, total1 := 0, state := initialState is224, is224 := is224 }

/-- The loop of `sha2_update` over whole blocks: the state, and what is left of `input` and `ilen`. -/
def sha2BlockLoop (s : Sha2State) (input : List UInt8) (ilen : Int) : Sha2State × List UInt8 × Int :=
  if 64 ≤ ilen then sha2BlockLoop (sha2Process s (input.take 64)) (input.drop 64) (ilen - 64)
  else (s, input, ilen)
termination_by ilen.toNat
decreasing_by omega

/-- `total[0]` and `total[1]` after `ilen` bytes more. -/
def sha2Count (ctx : Sha2Context) (ilen : Int) : Sha2Context :=
  let total0 := ctx.total0 + UInt32.ofInt ilen
  { ctx with total0 := total0, total1 := if total0 < UInt32.ofInt ilen then ctx.total1 + 1 else ctx.total1 }

/-- The end of `sha2_update`: whole blocks of the input, and the rest of it to the buffer at `left`. -/
def sha2Absorb (ctx : Sha2Context) (left : Nat) (input : List UInt8) (ilen : Int) : Sha2Context :=
  let r := sha2BlockLoop ctx.state input ilen
  if 0 < r.2.2 then
    { ctx with state := r.1, buffer := ctx.buffer.write left (r.2.1.take r.2.2.toNat) }
  else { ctx with state := r.1 }

/-- `sha2_update`: `input` is what lies from the pointer on. -/
def sha2Update (ctx : Sha2Context) (input : List UInt8) (ilen : Int) : Sha2Context :=
  if ilen ≤ 0 then ctx
  else
    let left := (ctx.total0 &&& 0x3F).toNat
    let fill := 64 - left
    let ctx := sha2Count ctx ilen
    if left ≠ 0 ∧ (fill : Int) ≤ ilen then
      let buffer := ctx.buffer.write left (input.take fill)
      sha2Absorb { ctx with state := sha2Process ctx.state buffer.toList, buffer := buffer } 0
        (input.drop fill) (ilen - fill)
    else sha2Absorb ctx left input ilen

/-- `sha2_padding`. -/
def sha2PaddingBytes : List UInt8 := 0x80 :: List.replicate 63 0

/-- The length of a digest. -/
def hashLen (is224 : Bool) : Nat := if is224 then 28 else 32

/-- The words of the state that are put out. -/
def putState (is224 : Bool) (s : Sha2State) : Bytes (hashLen is224) :=
  ⟨([s.a, s.b, s.c, s.d, s.e, s.f, s.g, s.h].flatMap putUlongBe).take (hashLen is224), by cases is224 <;> rfl⟩

/-- The context of `sha2_finish` after padding. -/
def sha2Pad (ctx : Sha2Context) : Sha2Context :=
  let high := ctx.total0 >>> 29 ||| ctx.total1 <<< 3
  let low := ctx.total0 <<< 3
  let msglen := putUlongBe high ++ putUlongBe low
  let last := ctx.total0 &&& 0x3F
  let padn := if last < 56 then 56 - last else 120 - last
  sha2Update (sha2Update ctx sha2PaddingBytes padn.toNat) msglen 8

/-- `sha2_finish`: what is put out. -/
def sha2Finish (ctx : Sha2Context) : Bytes (hashLen ctx.is224) := putState ctx.is224 (sha2Pad ctx).state

/-- `sha2`. -/
def sha2 (ctx : Sha2Context) (input : List UInt8) (ilen : Int) (is224 : Bool) : Bytes (hashLen is224) :=
  putState is224 (sha2Pad (sha2Update (sha2Starts ctx is224) input ilen)).state

/-- The key of `sha2_hmac_starts`: a long one is hashed. -/
def hmacShortKey (ctx : Sha2Context) (key : List UInt8) (keylen : Int) (is224 : Bool) : List UInt8 :=
  if 64 < keylen then (sha2 ctx key keylen is224).toList else key.take keylen.toNat

/-- A pad of `c` with the key on it. -/
def hmacPad (c : UInt8) (key : List UInt8) : Bytes 64 := List.Vector.ofFn fun i =>
  if i < key.length then c ^^^ key.getD i 0 else c

/-- `sha2_hmac_starts`. -/
def sha2HmacStarts (ctx : Sha2Context) (key : List UInt8) (keylen : Int) (is224 : Bool) : Sha2Context :=
  let key := hmacShortKey ctx key keylen is224
  let ctx := sha2Starts { ctx with ipad := hmacPad 0x36 key, opad := hmacPad 0x5C key } is224
  sha2Update ctx ctx.ipad.toList 64

/-- `sha2_hmac_update`. -/
def sha2HmacUpdate (ctx : Sha2Context) (input : List UInt8) (ilen : Int) : Sha2Context := sha2Update ctx input ilen

/-- `sha2_hmac_finish`. -/
def sha2HmacFinish (ctx : Sha2Context) : Bytes (hashLen ctx.is224) :=
  let tmpbuf := sha2Finish ctx
  let ctx' := sha2Starts (sha2Pad ctx) ctx.is224
  let ctx' := sha2Update ctx' ctx'.opad.toList 64
  let ctx' := sha2Update ctx' tmpbuf.toList (hashLen ctx.is224)
  putState ctx.is224 (sha2Pad ctx').state

/-- `sha2_hmac`. -/
def sha2Hmac (ctx : Sha2Context) (key : List UInt8) (keylen : Int) (input : List UInt8) (ilen : Int)
    (is224 : Bool) : Bytes (hashLen (sha2HmacUpdate (sha2HmacStarts ctx key keylen is224) input ilen).is224) :=
  sha2HmacFinish (sha2HmacUpdate (sha2HmacStarts ctx key keylen is224) input ilen)

/-! ## 2. A part -/

/-- The context is in step with the message that it was given. -/
structure Hashes (ctx : Sha2Context) (msg : List UInt8) : Prop where
  low : ctx.total0.toNat = msg.length % 4294967296
  high : ctx.total1.toNat = msg.length / 4294967296 % 4294967296
  streamed : Streamed sha2Process 64 (initialState ctx.is224) msg ctx.state (ctx.buffer.slice 0 (msg.length % 64))

variable {ctx : Sha2Context} {msg input : List UInt8} {ilen : Int} {s init : Sha2State} {left : Nat}

theorem Hashes.start (ctx : Sha2Context) (is224 : Bool) : Hashes (sha2Starts ctx is224) [] :=
  ⟨rfl, rfl, Streamed.start (by decide)⟩

/-- The count of the bytes that do not fill a block. -/
theorem Hashes.left_eq (h : Hashes ctx msg) : (ctx.total0 &&& 0x3F).toNat = msg.length % 64 := by
  have hand : (ctx.total0 &&& 0x3F).toNat = ctx.total0.toNat % 64 := Nat.and_two_pow_sub_one_eq_mod _ 6
  rw [hand, h.low]
  omega

/-- **The loop** takes in whole blocks, and leaves less than one. -/
theorem sha2BlockLoop_streamed (s : Sha2State) (input : List UInt8) (ilen : Int) (hlen : ilen.toNat ≤ input.length)
    (hpos : 0 ≤ ilen) : ∀ {msg : List UInt8}, Streamed sha2Process 64 init msg s [] →
      ∃ whole, input.take ilen.toNat =
          whole ++ (sha2BlockLoop s input ilen).2.1.take (sha2BlockLoop s input ilen).2.2.toNat ∧
        Streamed sha2Process 64 init (msg ++ whole) (sha2BlockLoop s input ilen).1 [] ∧
        (sha2BlockLoop s input ilen).2.2.toNat ≤ (sha2BlockLoop s input ilen).2.1.length ∧
        0 ≤ (sha2BlockLoop s input ilen).2.2 ∧ (sha2BlockLoop s input ilen).2.2 < 64 := by
  fun_induction sha2BlockLoop s input ilen with
  | case1 s input ilen hge ih =>
    intro msg h
    have hblock : (input.take 64).length = 64 := by
      rw [List.length_take]
      omega
    have hfill := h.fill (input.take 64) (by simpa using hblock)
    obtain ⟨whole, htake, hrest⟩ := ih (by rw [List.length_drop]; omega) (by omega) hfill
    refine ⟨input.take 64 ++ whole, ?_, by simpa using hrest⟩
    rw [List.append_assoc, ← htake, show ilen.toNat = 64 + (ilen - 64).toNat from by omega, List.take_add]
  | case2 s input ilen hlt =>
    intro msg h
    exact ⟨[], by simp, by simpa using h, hlen, hpos, Int.not_le.mp hlt⟩

theorem slice_zero (d : Bytes 64) : d.slice 0 0 = [] := by
  simp [Bytes.slice]

/-- The rest in the buffer, by its length. -/
theorem streamed_slice {rest : List UInt8} {d : Bytes 64} (h : Streamed sha2Process 64 init msg s rest)
    (hrest : d.slice 0 rest.length = rest) : Streamed sha2Process 64 init msg s (d.slice 0 (msg.length % 64)) := by
  rwa [← h.length, hrest]

/-- **The end of `sha2_update`**, with an empty buffer or with a part that does not fill it. -/
theorem sha2Absorb_streamed (hleft : left = 0 ∨ left + ilen.toNat < 64) (hlen : ilen.toNat ≤ input.length)
    (hpos : 0 ≤ ilen) (hlt : left < 64) (h : Streamed sha2Process 64 init msg ctx.state (ctx.buffer.slice 0 left)) :
    Streamed sha2Process 64 init (msg ++ input.take ilen.toNat) (sha2Absorb ctx left input ilen).state
      ((sha2Absorb ctx left input ilen).buffer.slice 0 ((msg ++ input.take ilen.toNat).length % 64)) := by
  have hslice : (ctx.buffer.slice 0 left).length = left := by
    rw [Bytes.slice, List.length_take, List.length_drop, List.Vector.toList_length]
    omega
  rcases hleft with rfl | hshort
  · rw [slice_zero] at h
    obtain ⟨whole, htake, hwhole, hrlen, hr0, hr64⟩ := sha2BlockLoop_streamed ctx.state input ilen hlen hpos h
    rw [sha2Absorb]
    generalize sha2BlockLoop ctx.state input ilen = r at *
    have hpart : (r.2.1.take r.2.2.toNat).length = r.2.2.toNat := by
      rw [List.length_take]
      omega
    have hkeep := hwhole.keep (r.2.1.take r.2.2.toNat) (by rw [hpart]; simp; omega)
    rw [List.nil_append] at hkeep
    rw [htake, ← List.append_assoc]
    split
    · exact streamed_slice hkeep (Bytes.slice_write_self (by omega))
    · rename_i hzero
      have hnil : r.2.1.take r.2.2.toNat = [] := List.eq_nil_of_length_eq_zero (by omega)
      rw [hnil] at hkeep ⊢
      exact streamed_slice hkeep (slice_zero _)
  · have hloop : sha2BlockLoop ctx.state input ilen = (ctx.state, input, ilen) := by
      rw [sha2BlockLoop, if_neg (by omega)]
    have hpart : (input.take ilen.toNat).length = ilen.toNat := by
      rw [List.length_take]
      omega
    have hkeep := h.keep (input.take ilen.toNat) (by omega)
    rw [sha2Absorb, hloop]
    dsimp only
    split
    · refine streamed_slice hkeep ?_
      rw [List.length_append, hslice]
      have hwrite := Bytes.slice_write_append (d := ctx.buffer) (p := 0) (k := left) (b := input.take ilen.toNat)
        (by omega)
      rwa [Nat.zero_add] at hwrite
    · have hnil : input.take ilen.toNat = [] := List.eq_nil_of_length_eq_zero (by omega)
      rw [hnil, List.append_nil] at hkeep ⊢
      refine streamed_slice hkeep ?_
      rw [List.append_nil, hslice]

/-- What `sha2_update` leaves alone. -/
theorem sha2Update_rest (ctx : Sha2Context) (input : List UInt8) (ilen : Int) :
    (sha2Update ctx input ilen).is224 = ctx.is224 ∧
    (sha2Update ctx input ilen).ipad = ctx.ipad ∧ (sha2Update ctx input ilen).opad = ctx.opad := by
  have habsorb (c : Sha2Context) (l : Nat) (i : List UInt8) (n : Int) : (sha2Absorb c l i n).is224 = c.is224 ∧
      (sha2Absorb c l i n).ipad = c.ipad ∧ (sha2Absorb c l i n).opad = c.opad := by
    rw [sha2Absorb]
    split <;> exact ⟨rfl, rfl, rfl⟩
  rw [sha2Update]
  dsimp only
  split
  · exact ⟨rfl, rfl, rfl⟩
  · split <;> exact habsorb _ _ _ _

theorem total_sha2Absorb (ctx : Sha2Context) (l : Nat) (input : List UInt8) (ilen : Int) :
    (sha2Absorb ctx l input ilen).total0 = ctx.total0 ∧
    (sha2Absorb ctx l input ilen).total1 = ctx.total1 := by
  rw [sha2Absorb]
  split <;> exact ⟨rfl, rfl⟩

/-- **The count** goes on by the bytes, with the carry. -/
theorem sha2Count_total {ilen : Int} (hpos : 0 ≤ ilen) (hlt : ilen < 4294967296)
    (hlow : ctx.total0.toNat = msg.length % 4294967296)
    (hhigh : ctx.total1.toNat = msg.length / 4294967296 % 4294967296) :
    (sha2Count ctx ilen).total0.toNat = (msg.length + ilen.toNat) % 4294967296 ∧
      (sha2Count ctx ilen).total1.toNat = (msg.length + ilen.toNat) / 4294967296 % 4294967296 := by
  have hofInt : (UInt32.ofInt ilen).toNat = ilen.toNat := by
    rw [UInt32.ofInt, Int.emod_eq_of_lt hpos (by omega), UInt32.toNat_ofNat_of_lt' (by simp [UInt32.size]; omega)]
  have htotal : (ctx.total0 + UInt32.ofInt ilen).toNat = (msg.length + ilen.toNat) % 4294967296 := by
    rw [UInt32.toNat_add, hlow, hofInt]
    omega
  refine ⟨htotal, ?_⟩
  have hcarry : ctx.total0 + UInt32.ofInt ilen < UInt32.ofInt ilen ↔
      (msg.length + ilen.toNat) % 4294967296 < ilen.toNat := by
    rw [UInt32.lt_iff_toNat_lt, htotal, hofInt]
  rw [sha2Count]
  dsimp only
  split
  · rename_i hlt'
    have hover := hcarry.mp hlt'
    rw [UInt32.toNat_add, hhigh, UInt32.toNat_one]
    omega
  · rename_i hge
    have hfits : ¬ (msg.length + ilen.toNat) % 4294967296 < ilen.toNat := fun h => hge (hcarry.mpr h)
    rw [hhigh]
    omega

/-- A part that fills the buffer. -/
theorem fill_streamed (input : List UInt8) (hlt : left < 64) (hfill : 64 - left ≤ input.length)
    (h : Streamed sha2Process 64 init msg s (ctx.buffer.slice 0 left)) :
    Streamed sha2Process 64 init (msg ++ input.take (64 - left))
      (sha2Process s (ctx.buffer.write left (input.take (64 - left))).toList) [] := by
  have hpart : (input.take (64 - left)).length = 64 - left := by
    rw [List.length_take]
    omega
  have hslice : (ctx.buffer.slice 0 left).length = left := by
    rw [Bytes.slice, List.length_take, List.length_drop, List.Vector.toList_length]
    omega
  have hwrite := Bytes.slice_write_append (d := ctx.buffer) (p := 0) (k := left) (b := input.take (64 - left))
    (by omega)
  rw [Nat.zero_add, hpart, show left + (64 - left) = 64 from by omega, Bytes.slice, List.drop_zero,
    List.take_of_length_le (by simp)] at hwrite
  rw [hwrite]
  exact h.fill _ (by rw [hslice, hpart]; omega)

/-- The totals and what is in step make a context that is. -/
theorem Hashes.of_absorb {ctx' : Sha2Context} {l : Nat} {i : List UInt8} {n : Int}
    (hlow : ctx'.total0.toNat = msg.length % 4294967296)
    (hhigh : ctx'.total1.toNat = msg.length / 4294967296 % 4294967296)
    (h : Streamed sha2Process 64 (initialState ctx'.is224) msg (sha2Absorb ctx' l i n).state
      ((sha2Absorb ctx' l i n).buffer.slice 0 (msg.length % 64))) : Hashes (sha2Absorb ctx' l i n) msg := by
  obtain ⟨h0, h1⟩ := total_sha2Absorb ctx' l i n
  have h224 : (sha2Absorb ctx' l i n).is224 = ctx'.is224 := by
    rw [sha2Absorb]
    split <;> rfl
  exact ⟨by rw [h0, hlow], by rw [h1, hhigh], by rwa [h224]⟩

/-- **`sha2_update` stays in step with the message.** -/
theorem sha2Update_streamed (input : List UInt8) (ilen : Int) (h : Hashes ctx msg)
    (hlen : ilen.toNat ≤ input.length) (hlt : ilen < 4294967296) :
    Hashes (sha2Update ctx input ilen) (msg ++ input.take ilen.toNat) := by
  by_cases hpos : ilen ≤ 0
  · have hnil : input.take ilen.toNat = [] := by
      rw [show ilen.toNat = 0 from by omega, List.take_zero]
    rw [sha2Update, if_pos hpos, hnil, List.append_nil]
    exact h
  · have hleft := h.left_eq
    have hmod : msg.length % 64 < 64 := Nat.mod_lt _ (by decide)
    have htake : (msg ++ input.take ilen.toNat).length = msg.length + ilen.toNat := by
      rw [List.length_append, List.length_take]
      omega
    obtain ⟨hlow, hhigh⟩ := sha2Count_total (Int.le_of_lt (Int.not_le.mp hpos)) hlt h.low h.high
    rw [← htake] at hlow hhigh
    rw [sha2Update, if_neg hpos]
    dsimp only
    rw [hleft]
    split
    · rename_i hfill
      have hstreamed := fill_streamed input hmod (by omega) h.streamed
      have hsplit : msg ++ input.take ilen.toNat = msg ++ input.take (64 - msg.length % 64) ++
          (input.drop (64 - msg.length % 64)).take (ilen - (64 - msg.length % 64 : Nat)).toNat := by
        rw [List.append_assoc, ← List.take_add]
        congr 2
        omega
      refine Hashes.of_absorb hlow hhigh ?_
      rw [hsplit]
      refine sha2Absorb_streamed (Or.inl rfl) (by rw [List.length_drop]; omega) (by omega) (by decide) ?_
      rw [slice_zero]
      exact hstreamed
    · rename_i hshort
      refine Hashes.of_absorb hlow hhigh ?_
      exact sha2Absorb_streamed (by omega) hlen (by omega) hmod h.streamed

/-! ## 3. The end -/

/-- `PUT_ULONG_BE` of the last 32 bits of a number. -/
theorem putUlongBe_eq {x : UInt32} {n : Nat} (h : x.toNat = n % 4294967296) : putUlongBe x = bytesBe 4 n := by
  obtain ⟨h0, h1, h2, h3⟩ := toNat_shiftRight_toUInt8 x
  have b0 : x.toUInt8 = UInt8.ofNat n := eq_ofNat_of_toNat (by omega)
  have b1 : (x >>> 8).toUInt8 = UInt8.ofNat (n / 256) := eq_ofNat_of_toNat (by omega)
  have b2 : (x >>> 16).toUInt8 = UInt8.ofNat (n / 256 / 256) := eq_ofNat_of_toNat (by omega)
  have b3 : (x >>> 24).toUInt8 = UInt8.ofNat (n / 256 / 256 / 256) := eq_ofNat_of_toNat (by omega)
  rw [putUlongBe, b0, b1, b2, b3]
  rfl

/-- The two words of the length in bits. -/
theorem msglen_eq (h : Hashes ctx msg) :
    putUlongBe (ctx.total0 >>> 29 ||| ctx.total1 <<< 3) ++ putUlongBe (ctx.total0 <<< 3) =
      bytesBe 8 (msg.length * 8) := by
  have hlow : (ctx.total0 <<< 3).toNat = msg.length * 8 % 4294967296 := by
    rw [UInt32.toNat_shiftLeft, h.low, Nat.shiftLeft_eq]
    simp
  have htop : (ctx.total0 >>> 29).toNat = msg.length % 4294967296 / 536870912 := by
    rw [UInt32.toNat_shiftRight, h.low, Nat.shiftRight_eq_div_pow]
    rfl
  have hbottom : (ctx.total1 <<< 3).toNat = (msg.length / 4294967296 % 536870912) <<< 3 := by
    rw [UInt32.toNat_shiftLeft, h.high, Nat.shiftLeft_eq, Nat.shiftLeft_eq]
    simp
    omega
  have hhigh : (ctx.total0 >>> 29 ||| ctx.total1 <<< 3).toNat =
      msg.length * 8 / 256 / 256 / 256 / 256 % 4294967296 := by
    rw [UInt32.toNat_or, htop, hbottom, Nat.or_comm, ← Nat.shiftLeft_add_eq_or_of_lt (by omega), Nat.shiftLeft_eq]
    omega
  rw [putUlongBe_eq hlow, putUlongBe_eq hhigh]
  simp only [bytesBe, List.append_assoc]
  rfl

/-- What `sha2_finish` takes of the array of its padding. -/
theorem padding_take {n : Nat} (hpos : 0 < n) (hle : n ≤ 64) :
    sha2PaddingBytes.take n = 0x80 :: List.replicate (n - 1) 0 := by
  obtain ⟨k, rfl⟩ := Nat.exists_eq_succ_of_ne_zero (Nat.pos_iff_ne_zero.mp hpos)
  rw [sha2PaddingBytes, List.take_succ_cons, List.take_replicate, Nat.min_eq_left (by omega)]
  rfl

/-- The bytes up to the length. -/
def padCount (len : Nat) : Nat := if len % 64 < 56 then 56 - len % 64 else 120 - len % 64

theorem padn_eq (h : Hashes ctx msg) :
    ((if ctx.total0 &&& 0x3F < 56 then 56 - (ctx.total0 &&& 0x3F) else 120 - (ctx.total0 &&& 0x3F)) : UInt32).toNat =
      padCount msg.length := by
  have hleft := h.left_eq
  have hmod : msg.length % 64 < 64 := Nat.mod_lt _ (by decide)
  have hlt : ctx.total0 &&& 0x3F < 56 ↔ msg.length % 64 < 56 := by
    rw [UInt32.lt_iff_toNat_lt, hleft]
    rfl
  unfold padCount
  split
  · rename_i h56
    rw [if_pos (hlt.mp h56), UInt32.toNat_sub_of_le _ _ (UInt32.le_of_lt h56), hleft]
    rfl
  · rename_i h56
    have hle : ctx.total0 &&& 0x3F ≤ 120 := by
      rw [UInt32.le_iff_toNat_le, hleft]
      exact Nat.le_of_lt (Nat.lt_of_lt_of_le hmod (by decide))
    rw [if_neg (fun h => h56 (hlt.mpr h)), UInt32.toNat_sub_of_le _ _ hle, hleft]
    rfl

/-- **`sha2_finish` takes in the padding.** -/
theorem sha2Pad_streamed (h : Hashes ctx msg) : Hashes (sha2Pad ctx) (msg ++ Trustlet.sha2Padding msg.length) := by
  have hcount : 0 < padCount msg.length ∧ padCount msg.length ≤ 64 := by
    unfold padCount
    split <;> omega
  rw [sha2Pad, padn_eq h, msglen_eq h]
  have hpad := sha2Update_streamed sha2PaddingBytes (padCount msg.length : Nat) h
    (by simp [sha2PaddingBytes]; omega) (by omega)
  have hlen := sha2Update_streamed (bytesBe 8 (msg.length * 8)) 8 hpad
    (by rw [length_bytesBe]; decide) (by decide)
  rw [Int.toNat_natCast, padding_take hcount.1 hcount.2, show (8 : Int).toNat = 8 from rfl,
    List.take_of_length_le (by rw [length_bytesBe]), List.append_assoc] at hlen
  exact hlen

/-- The digest of a message that is there as a whole. -/
def digest (is224 : Bool) (msg : List UInt8) : Bytes (hashLen is224) :=
  let data := msg ++ Trustlet.sha2Padding msg.length
  putState is224 (Trustlet.sha2Blocks (data.length / 64) data (initialState is224))

/-- The message with its padding is whole blocks. -/
theorem length_padded (len : Nat) : (len + (Trustlet.sha2Padding len).length) % 64 = 0 := by
  simp only [Trustlet.sha2Padding, List.length_append, List.length_cons, List.length_replicate, length_bytesBe]
  split <;> omega

theorem sha2Pad_state (h : Hashes ctx msg) : (sha2Pad ctx).state =
    Trustlet.sha2Blocks ((msg ++ Trustlet.sha2Padding msg.length).length / 64)
      (msg ++ Trustlet.sha2Padding msg.length) (initialState ctx.is224) := by
  have hpad := (sha2Pad_streamed h).streamed.whole (by rw [List.length_append, length_padded])
  have h224 : (sha2Pad ctx).is224 = ctx.is224 := by
    rw [sha2Pad, (sha2Update_rest _ _ _).1, (sha2Update_rest _ _ _).1]
  rw [hpad, h224, sha2Blocks_eq]

/-! ## 4. Digests -/

/-- Parts one after the other. -/
def sha2Updates (ctx : Sha2Context) (parts : List (List UInt8)) : Sha2Context :=
  parts.foldl (fun ctx part => sha2Update ctx part part.length) ctx

theorem sha2Updates_streamed : ∀ {parts : List (List UInt8)} {ctx : Sha2Context} {msg : List UInt8},
    (∀ part ∈ parts, part.length < 2147483648) → Hashes ctx msg → Hashes (sha2Updates ctx parts) (msg ++ parts.flatten)
  | [], ctx, msg, _, h => by simpa [sha2Updates] using h
  | part :: parts, ctx, msg, hparts, h => by
    have hpart := hparts part (by simp)
    have hone := sha2Update_streamed part part.length h (by simp) (by omega)
    rw [Int.toNat_natCast, List.take_length] at hone
    have hrest := sha2Updates_streamed (fun p hp => hparts p (List.mem_cons_of_mem _ hp)) hone
    rwa [List.flatten_cons, ← List.append_assoc]

theorem sha2Updates_rest : ∀ (parts : List (List UInt8)) (ctx : Sha2Context),
    (sha2Updates ctx parts).is224 = ctx.is224 ∧ (sha2Updates ctx parts).opad = ctx.opad
  | [], _ => ⟨rfl, rfl⟩
  | part :: parts, ctx => by
    obtain ⟨h224, -, hopad⟩ := sha2Update_rest ctx part part.length
    obtain ⟨hrest, hrest'⟩ := sha2Updates_rest parts (sha2Update ctx part part.length)
    exact ⟨hrest.trans h224, hrest'.trans hopad⟩

/-- What a context that is in step puts out. -/
theorem putState_eq (h : Hashes ctx msg) : putState ctx.is224 (sha2Pad ctx).state = digest ctx.is224 msg := by
  rw [sha2Pad_state h, digest]

/-- Without `is224` it is the digest of the trustlets' model. -/
theorem digest_eq (msg : List UInt8) : (digest false msg).toList = (Trustlet.sha2Finish msg).toList := by
  rw [digest, putState, Trustlet.sha2Finish, Sha2State.digest]
  exact List.take_of_length_le (by simp [putUlongBe, hashLen])

/-- What is put out of the words. -/
theorem putState_words (is224 : Bool) (s : Sha2State) : (putState is224 s).toList =
    ((words s).words.flatMap fun w => bytesBe 4 w.toNat).take (hashLen is224) := by
  have hput (x : UInt32) : putUlongBe x = bytesBe 4 x.toBitVec.toNat :=
    putUlongBe_eq (Nat.mod_eq_of_lt x.toNat_lt).symm
  change ([s.a, s.b, s.c, s.d, s.e, s.f, s.g, s.h].flatMap putUlongBe).take (hashLen is224) = _
  simp only [List.flatMap_cons, List.flatMap_nil, hput, words, Sha2.State.words]

/-- **It is the digest of SHA-2.** -/
theorem digest_sha2 (is224 : Bool) (msg : List UInt8) : (digest is224 msg).toList =
    Sha2.digest (hashLen is224) roundConstant (words (initialState is224)) msg := by
  rw [digest, putState_words, sha2Blocks_hash, Sha2.digest]

/-- The numbers in the file are those of the standard. -/
theorem standard (is224 : Bool) : Sha2.Standard is224 roundConstant (words (initialState is224)) := by
  refine ⟨fun t ht => roundConstant_fraction ht, ?_⟩
  -- what the roots have before these words
  have hroots : ∀ i < 8, ∃ whole ∈ if is224 then [0x4CBBB9D5D, 0x5629A292A, 0x59159015A, 0x6152FECD8, 0x667332667,
      0x68EB44A87, 0x6DB0C2E0D, 0x747B5481D] else [1, 2, 3, 4],
      let r := whole * 2 ^ 32 + ((words (initialState is224)).words.getD i 0).toNat
      let scaled := Sha2.primes.getD (if is224 then i + 8 else i) 0 * 2 ^ ((if is224 then 64 else 32) * 2)
      r ^ 2 ≤ scaled ∧ scaled < (r + 1) ^ 2 := by
    rw [Sha2.primes_eq]
    cases is224 <;> decide +kernel
  intro i hi
  obtain ⟨whole, -, hle, hlt⟩ := hroots i hi
  exact Sha2.IsRootFraction.of_word whole hle hlt

/-- **The digest is that of the whole message**, in whatever parts it came, and however long it is. -/
theorem sha2_parts (ctx : Sha2Context) (is224 : Bool) (parts : List (List UInt8))
    (hparts : ∀ part ∈ parts, part.length < 2147483648) :
    (sha2Finish (sha2Updates (sha2Starts ctx is224) parts)).toList = (digest is224 parts.flatten).toList ∧
      (digest false parts.flatten).toList = (Trustlet.sha2Finish parts.flatten).toList ∧
      (digest is224 parts.flatten).toList =
        Sha2.digest (hashLen is224) roundConstant (words (initialState is224)) parts.flatten ∧
      Sha2.Standard is224 roundConstant (words (initialState is224)) := by
  have h := sha2Updates_streamed hparts (Hashes.start ctx is224)
  have h224 : (sha2Updates (sha2Starts ctx is224) parts).is224 = is224 := (sha2Updates_rest _ _).1
  rw [sha2Finish, putState_eq h, List.nil_append, h224]
  exact ⟨rfl, digest_eq _, digest_sha2 _ _, standard _⟩

/-- Three bytes in two parts. -/
theorem sha2_parts_two :
    (sha2Finish (sha2Updates (sha2Starts ⟨0, 0, sha2Initial, Bytes.zero 64, Bytes.zero 64, Bytes.zero 64, false⟩ true)
        [[1, 2], [3]])).toList = (digest true [1, 2, 3]).toList ∧
      (digest false [1, 2, 3]).toList = (Trustlet.sha2Finish [1, 2, 3]).toList ∧
      (digest true [1, 2, 3]).toList = Sha2.digest 28 roundConstant (words sha224Initial) [1, 2, 3] ∧
      Sha2.Standard true roundConstant (words sha224Initial) :=
  sha2_parts ⟨0, 0, sha2Initial, Bytes.zero 64, Bytes.zero 64, Bytes.zero 64, false⟩ true [[1, 2], [3]] (by simp)

/-! ## 5. HMAC -/

variable {key : List UInt8} {is224 : Bool}

/-- The digest of a single part, with `sha2`. -/
theorem sha2_eq (ctx : Sha2Context) (is224 : Bool) (key : List UInt8) (hlen : key.length < 2147483648) :
    sha2 ctx key key.length is224 = digest is224 key := by
  have h := sha2Update_streamed key key.length (Hashes.start ctx is224) (by simp) (by omega)
  rw [Int.toNat_natCast, List.take_length, List.nil_append] at h
  have h224 : (sha2Update (sha2Starts ctx is224) key key.length).is224 = is224 := (sha2Update_rest _ _ _).1
  rw [sha2, sha2Pad_state h, h224, digest]

theorem hashLen_le (is224 : Bool) : hashLen is224 ≤ 64 := by
  cases is224 <;> decide

/-- **The pads** are the key of HMAC, xored. -/
theorem hmacPad_eq (ctx : Sha2Context) (c : UInt8) (hlen : key.length < 2147483648) :
    (hmacPad c (hmacShortKey ctx key key.length is224)).toList = (hmacKey (digest is224) 64 key).map (· ^^^ c) := by
  have hshort : hmacShortKey ctx key key.length is224 =
      if 64 < key.length then (digest is224 key).toList else key := by
    rw [hmacShortKey, sha2_eq ctx is224 _ hlen, Int.toNat_natCast, List.take_length]
    simp only [Nat.ofNat_lt_cast]
  rw [hshort, hmacKey]
  generalize hk : (if 64 < key.length then (digest is224 key).toList else key) = k
  have hle : k.length ≤ 64 := by
    rw [← hk]
    split
    · rw [List.Vector.toList_length]
      exact hashLen_le is224
    · omega
  refine List.ext_getElem (by simp; omega) ?_
  intro i hi hi'
  simp only [hmacPad, List.Vector.toList_ofFn, List.getElem_ofFn, List.getElem_map]
  split
  · rename_i hin
    rw [List.getElem_append_left hin, UInt8.xor_comm]
    simp [hin]
  · rename_i hout
    rw [List.getElem_append_right (by omega), List.getElem_replicate, UInt8.zero_xor]

/-- What `sha2_hmac_finish` puts out, for a context that is in step. -/
theorem sha2HmacFinish_eq (ctx : Sha2Context) (h : Hashes ctx msg) : sha2HmacFinish ctx =
    digest ctx.is224 (ctx.opad.toList ++ (digest ctx.is224 msg).toList) := by
  have hpad : (sha2Pad ctx).opad = ctx.opad := by
    rw [sha2Pad, (sha2Update_rest _ _ _).2.2, (sha2Update_rest _ _ _).2.2]
  have houter := sha2Update_streamed ctx.opad.toList 64
    (Hashes.start (sha2Pad ctx) ctx.is224) (by simp) (by decide)
  rw [show (64 : Int).toNat = 64 from rfl, List.take_of_length_le (by simp), List.nil_append] at houter
  have hinner := sha2Update_streamed (sha2Finish ctx).toList (hashLen ctx.is224 : Nat) houter
    (by simp) (by have := hashLen_le ctx.is224; omega)
  rw [Int.toNat_natCast, List.take_of_length_le (by simp)] at hinner
  have h224 : (sha2Update (sha2Update (sha2Starts (sha2Pad ctx) ctx.is224) ctx.opad.toList 64)
      (sha2Finish ctx).toList (hashLen ctx.is224)).is224 = ctx.is224 :=
    (sha2Update_rest _ _ _).1.trans (sha2Update_rest _ _ _).1
  have hopad : (sha2Starts (sha2Pad ctx) ctx.is224).opad = ctx.opad := hpad
  rw [sha2HmacFinish, hopad, sha2Pad_state hinner, h224, sha2Finish, putState_eq h]
  generalize digest ctx.is224 msg = inner
  rw [digest]

/-- The context of HMAC, after so many parts. -/
theorem sha2Hmac_updates (ctx : Sha2Context) (is224 : Bool) (key : List UInt8) (hkey : key.length < 2147483648)
    (parts : List (List UInt8)) (hparts : ∀ part ∈ parts, part.length < 2147483648) :
    (sha2HmacFinish (sha2Updates (sha2HmacStarts ctx key key.length is224) parts)).toList =
      (hmac (digest is224) 64 key parts.flatten).toList := by
  have hstart := sha2Update_streamed (hmacPad 0x36 (hmacShortKey ctx key key.length is224)).toList
    64 (Hashes.start { ctx with
      ipad := hmacPad 0x36 (hmacShortKey ctx key key.length is224)
      opad := hmacPad 0x5C (hmacShortKey ctx key key.length is224) } is224) (by simp) (by decide)
  rw [show (64 : Int).toNat = 64 from rfl, List.take_of_length_le (by simp), List.nil_append] at hstart
  have hall := sha2Updates_streamed hparts hstart
  obtain ⟨h224, hopad⟩ := sha2Updates_rest parts (sha2HmacStarts ctx key key.length is224)
  have h224' : (sha2HmacStarts ctx key key.length is224).is224 = is224 := (sha2Update_rest _ _ _).1
  have hopad' : (sha2HmacStarts ctx key key.length is224).opad =
      hmacPad 0x5C (hmacShortKey ctx key key.length is224) := (sha2Update_rest _ _ _).2.2
  have hfinish := sha2HmacFinish_eq (sha2Updates (sha2HmacStarts ctx key key.length is224) parts) hall
  rw [congrArg List.Vector.toList hfinish, h224, h224', hopad, hopad', hmac, hmacPad_eq ctx _ hkey,
    hmacPad_eq ctx _ hkey]

/-- **The three functions make HMAC**, in whatever parts the message comes; `sha2_hmac` calls them for a message in one
part. -/
theorem sha2Hmac_parts (ctx : Sha2Context) (is224 : Bool) (key : List UInt8) (hkey : key.length < 2147483648)
    (parts : List (List UInt8)) (hparts : ∀ part ∈ parts, part.length < 2147483648) :
    (sha2HmacFinish (sha2Updates (sha2HmacStarts ctx key key.length is224) parts)).toList =
        (hmac (digest is224) 64 key parts.flatten).toList ∧
      (∀ part ∈ parts, (sha2Hmac ctx key key.length part part.length is224).toList =
        (hmac (digest is224) 64 key part).toList) ∧
      (∀ msg, (digest is224 msg).toList =
        Sha2.digest (hashLen is224) roundConstant (words (initialState is224)) msg) ∧
      Sha2.Standard is224 roundConstant (words (initialState is224)) := by
  refine ⟨sha2Hmac_updates ctx is224 key hkey _ hparts, ?_, digest_sha2 is224, standard is224⟩
  intro part hpart
  have hone := sha2Hmac_updates ctx is224 key hkey [part] (by simpa using hparts part hpart)
  rw [List.flatten_singleton] at hone
  exact hone

/-- A short key. -/
theorem sha2Hmac_parts_short :
    (sha2HmacFinish (sha2Updates (sha2HmacStarts
        ⟨0, 0, sha2Initial, Bytes.zero 64, Bytes.zero 64, Bytes.zero 64, false⟩ [7] 1 false) [[1, 2], [3]])).toList =
        (hmac (digest false) 64 [7] [1, 2, 3]).toList ∧
      (∀ part ∈ [[1, 2], [3]], (sha2Hmac ⟨0, 0, sha2Initial, Bytes.zero 64, Bytes.zero 64, Bytes.zero 64, false⟩
        [7] 1 part part.length false).toList = (hmac (digest false) 64 [7] part).toList) ∧
      (∀ msg, (digest false msg).toList = Sha2.digest 32 roundConstant (words sha2Initial) msg) ∧
      Sha2.Standard false roundConstant (words sha2Initial) :=
  sha2Hmac_parts ⟨0, 0, sha2Initial, Bytes.zero 64, Bytes.zero 64, Bytes.zero 64, false⟩ false [7] (by decide)
    [[1, 2], [3]] (by simp)

end AndixOs.Crypto
