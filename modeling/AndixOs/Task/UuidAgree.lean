/-
# One UUID, read by three programs

The kernel, the library of the clients and the packer each have a function that reads a UUID.  The packer's
is a different one: it has `sscanf` store whole words into fields of two bytes and of one, so that every
store but the first runs over what is behind its field.  The stores that come later repair that, and what
they cannot repair, the last two bytes, is set aside before the loop and put back after it.

* `parseUuid_text`: what the packer is left with, byte by byte;
* `uuids_agree`: all three have the same sixteen bytes.
-/
import AndixOs.Lib.Mem32
import AndixOs.Lib.Scanf
import AndixOs.Task.UuidParse

namespace AndixOs.Uuid

open AndixOs
open AndixOs.Libc (Directive sscanf)
open AndixOs.Task (TaskUuid matchUuids matchUuids_iff storeName storeName_injective)

/-! ## 1. The clients: `utils.c` -/

/-- `TEE_uuid_parse`: the text of `uuid_parse`, with `strtouc` and `strtous` of the same text and the
`strtoul` of the C library.  `TEEC_UUID` has the fields of `TASK_UUID`. -/
def teeUuidParse : CStr → TaskUuid → Int × TaskUuid := uuidParseBy Libc.strtoul16

/-! ## 2. The packer: `main.c` -/

/-- What `sscanf` stores to: the structure `*tee`, by offset, and `bytes`.  What is stored behind the end of
one of them is in nothing else. -/
structure PackVars where
  tee : Mem
  bytes : Mem

/-- A string stored with its NUL. -/
def storeStr (m : Mem) (s : List UInt8) : Mem := fun x =>
  if x < s.length then s.getD x 0 else if x = s.length then 0 else m x

/-- A word stored to a field, whatever the size of the field. -/
def PackVars.store (offset : Nat) (p : PackVars) (v : UInt32) : PackVars :=
  { p with tee := store32 p.tee offset v.toNat }

/-- `"%08x-%04x-%04x-%04x-%s"`: `timeLow`, `timeMid`, `timeHiAndVersion`, `clockSeqAndNode[6]`, `bytes`. -/
def packFormat : List (Directive PackVars) :=
  [.hex 8 (.store 0), .lit 0x2D, .hex 4 (.store 4), .lit 0x2D, .hex 4 (.store 6), .lit 0x2D,
    .hex 4 (.store 14), .lit 0x2D, .str fun p s => { p with bytes := storeStr p.bytes s }]

/-- The loop from `i` down: `"%02x"`, to `clockSeqAndNode[6 - i]`. -/
def packLoop (bytes : Mem) : Nat → Mem → Int × Mem
  | 0, tee => (0, tee)
  | i + 1, tee =>
    let byte := [bytes (i * 2), bytes (i * 2 + 1)].takeWhile (· != 0)
    let r := sscanf [.hex 2 fun tee v => store32 tee (8 + (6 - (i + 1))) v.toNat] byte 0 tee
    if r.1 ≠ 1 then (-1, r.2) else packLoop bytes i r.2

/-- `parse_uuid`. -/
def parseUuid (uuid : CStr) (tee : Mem) : Int × Mem :=
  let r := sscanf packFormat uuid.chars 0 ⟨tee, fun _ => 0⟩
  if r.1 ≠ 5 then (-1, r.2.tee)
  else
    let d7 := r.2.tee 15
    let d6 := r.2.tee 14
    let l := packLoop r.2.bytes 6 r.2.tee
    if l.1 ≠ 0 then (-1, l.2) else (0, store8 (store8 l.2 15 d7) 14 d6)

/-- The bytes of the structure. -/
def packBytes (tee : Mem) : List UInt8 := (List.range 16).map tee

/-! ## 3. The first scan -/

variable {t : UuidText} {tee : Mem}

/-- The structure after the first scan. -/
def UuidText.scanned (t : UuidText) (tee : Mem) : Mem :=
  store32 (store32 (store32 (store32 tee 0 (UInt32.ofNat (hexValue t.timeLow.chars)).toNat) 4
    (UInt32.ofNat (hexValue t.timeMid.chars)).toNat) 6
    (UInt32.ofNat (hexValue t.timeHiAndVersion.chars)).toNat) 14
    (UInt32.ofNat (hexValue t.clockSeq.chars)).toNat

theorem sscanf_text (t : UuidText) (tee bytes : Mem) :
    sscanf packFormat t.chars 0 ⟨tee, bytes⟩ = (5, ⟨t.scanned tee, storeStr bytes t.node.chars⟩) := by
  rw [packFormat, UuidText.chars, Libc.sscanf_hex _ (by decide) (by decide), Libc.sscanf_lit,
    Libc.sscanf_hex _ (by decide) (by decide), Libc.sscanf_lit,
    Libc.sscanf_hex _ (by decide) (by decide), Libc.sscanf_lit,
    Libc.sscanf_hex _ (by decide) (by decide), Libc.sscanf_lit,
    Libc.sscanf_str _ (by decide)]
  rfl

/-! ## 4. The loop -/

/-- A string keeps a row of digits: none of them is the NUL. -/
theorem takeWhile_row {n : Nat} (r : HexRow n) : r.chars.takeWhile (· != 0) = r.chars :=
  List.takeWhile_eq_self_iff.mpr fun c hc => bne_iff_ne.mpr (ne_of_isHex (r.hex c hc) (by decide))

/-- **One round** stores its byte, and zeros over the three behind it. -/
theorem packLoop_succ {bytes : Mem} (r : HexRow 12) (hbytes : ∀ x < 12, bytes x = r.chars.getD x 0) {i : Nat}
    (hi : 2 * i + 1 < 12) (tee : Mem) : packLoop bytes (i + 1) tee =
      packLoop bytes i (store32 tee (13 - i) (hexValue (r.pairAt (2 * i) hi).chars)) := by
  let store : Mem → UInt32 → Mem := fun tee v => store32 tee (8 + (6 - (i + 1))) v.toNat
  have hscan : sscanf [.hex 2 store] ((r.pairAt (2 * i) hi).chars ++ []) 0 tee =
      (1, store tee (UInt32.ofNat (hexValue (r.pairAt (2 * i) hi).chars))) :=
    Libc.sscanf_hex (r.pairAt (2 * i) hi) (by decide) (by decide) store
  have hbyte : [bytes (i * 2), bytes (i * 2 + 1)] = (r.pairAt (2 * i) hi).chars := by
    rw [Nat.mul_comm i 2, hbytes _ (by omega), hbytes _ hi]
    rfl
  have hoffset : 8 + (6 - (i + 1)) = 13 - i := by omega
  have hvalue : (UInt32.ofNat (hexValue (r.pairAt (2 * i) hi).chars)).toNat =
      hexValue (r.pairAt (2 * i) hi).chars :=
    UInt32.toNat_ofNat_of_lt' ((r.pairAt (2 * i) hi).value_lt.trans (by decide))
  rw [List.append_nil] at hscan
  rw [packLoop, hbyte, takeWhile_row, hscan, if_neg (not_not.mpr rfl)]
  simp only [store, hvalue, hoffset]

/-- **The loop** stores the bytes up to the two last ones.  A round runs over three bytes behind its own,
and of those the ones that matter are stored by the rounds to come. -/
theorem packLoop_row {bytes : Mem} (r : HexRow 12) (hbytes : ∀ x < 12, bytes x = r.chars.getD x 0) {i : Nat}
    (hi : i ≤ 6) (tee : Mem) : (packLoop bytes i tee).1 = 0 ∧
      ∀ x < 14, (packLoop bytes i tee).2 x = if 14 - i ≤ x then
        UInt8.ofNat (hexValue [r.chars.getD (2 * (13 - x)) 0, r.chars.getD (2 * (13 - x) + 1) 0]) else tee x := by
  induction i generalizing tee with
  | zero =>
    refine ⟨rfl, fun x hx => ?_⟩
    rw [if_neg (Nat.not_le.mpr hx)]
    rfl
  | succ i ih =>
    have hpair : 2 * i + 1 < 12 := by omega
    rw [packLoop_succ r hbytes hpair]
    obtain ⟨hzero, hstored⟩ := ih (Nat.le_of_succ_le hi)
      (store32 tee (13 - i) (hexValue (r.pairAt (2 * i) hpair).chars))
    refine ⟨hzero, fun x hx => ?_⟩
    rw [hstored x hx]
    rcases Nat.lt_trichotomy x (13 - i) with hlt | heq | hgt
    · rw [if_neg (by omega), if_neg (by omega), store32_of_ne (Or.inl hlt)]
    · have hround : 13 - x = i := by omega
      rw [if_neg (by omega), if_pos (by omega), store32_byte (r.pairAt (2 * i) hpair).value_lt, if_pos heq, hround]
      rfl
    · rw [if_pos (by omega), if_pos (by omega)]

/-! ## 5. The sixteen bytes -/

/-- The two bytes of the fourth group are the last two bytes of the UUID. -/
theorem clockSeq_bytes (t : UuidText) : UInt8.ofNat (hexValue t.clockSeq.chars) = UInt8.ofNat (t.clockByte 1) ∧
    UInt8.ofNat (hexValue t.clockSeq.chars / 256) = UInt8.ofNat (t.clockByte 0) := by
  have hlen := t.clockSeq.length_eq
  have hdigit : ∀ k < 4, t.clock.chars.getD k 0 = t.clockSeq.chars.getD k 0 :=
    fun k hk => List.getD_append _ _ _ _ (hk.trans_eq hlen.symm)
  have hvalue : hexValue t.clockSeq.chars = t.clockByte 1 + 256 * t.clockByte 0 := by
    rw [UuidText.clockByte, UuidText.clockByte, hdigit _ (by decide), hdigit _ (by decide),
      hdigit _ (by decide), hdigit _ (by decide), hexValue_pairs (n := 2) hlen]
    simp [List.range_succ, Nat.ofDigits_cons]
  have hlt := clockByte_lt t (j := 1) (by decide)
  rw [hvalue]
  constructor
  · rw [← UInt8.toNat_inj, UInt8.toNat_ofNat', UInt8.toNat_ofNat', Nat.add_mul_mod_self_left]
  · rw [Nat.add_mul_div_left _ _ (by decide), Nat.div_eq_of_lt hlt, Nat.zero_add]

/-- The digits of the last group are those of the other six. -/
theorem node_digit (t : UuidText) (k : Nat) : t.node.chars.getD k 0 = t.clock.chars.getD (k + 4) 0 := by
  have hlen := t.clockSeq.length_eq
  rw [UuidText.clock]
  dsimp only
  rw [List.getD_append_right _ _ _ _ (by omega), hlen, Nat.add_sub_cancel]

/-- A text as a string. -/
def UuidText.cstr (t : UuidText) : CStr where
  chars := t.chars
  noNul := by
    have hrow : ∀ {n : Nat} (r : HexRow n), 0 ∉ r.chars := fun r h => absurd (r.hex 0 h) (by decide)
    simp [UuidText.chars, hrow]

/-- The bytes of a text's value, in memory. -/
theorem storeName_value (t : UuidText) : storeName t.value =
    [UInt8.ofNat (hexValue t.timeLow.chars), UInt8.ofNat (hexValue t.timeLow.chars / 256),
      UInt8.ofNat (hexValue t.timeLow.chars / 65536), UInt8.ofNat (hexValue t.timeLow.chars / 16777216),
      UInt8.ofNat (hexValue t.timeMid.chars), UInt8.ofNat (hexValue t.timeMid.chars / 256),
      UInt8.ofNat (hexValue t.timeHiAndVersion.chars), UInt8.ofNat (hexValue t.timeHiAndVersion.chars / 256)] ++
    ((List.range 8).map fun j => UInt8.ofNat (t.clockByte j)).reverse := by
  rw [storeName, UuidText.value, le32_ofNat t.timeLow.value_lt, le16_ofNat t.timeMid.value_lt,
    le16_ofNat t.timeHiAndVersion.value_lt]
  rfl

/-- The structure after the first scan, but for what the loop is to store. -/
theorem scanned_bytes (t : UuidText) (tee : Mem) : (List.range 8).map (t.scanned tee) =
    [UInt8.ofNat (hexValue t.timeLow.chars), UInt8.ofNat (hexValue t.timeLow.chars / 256),
      UInt8.ofNat (hexValue t.timeLow.chars / 65536), UInt8.ofNat (hexValue t.timeLow.chars / 16777216),
      UInt8.ofNat (hexValue t.timeMid.chars), UInt8.ofNat (hexValue t.timeMid.chars / 256),
      UInt8.ofNat (hexValue t.timeHiAndVersion.chars), UInt8.ofNat (hexValue t.timeHiAndVersion.chars / 256)] ∧
    t.scanned tee 14 = UInt8.ofNat (t.clockByte 1) ∧ t.scanned tee 15 = UInt8.ofNat (t.clockByte 0) := by
  have hword : ∀ {n : Nat} (r : HexRow n), n ≤ 8 →
      (UInt32.ofNat (hexValue r.chars)).toNat = hexValue r.chars := by
    intro n r hn
    exact UInt32.toNat_ofNat_of_lt' (r.value_lt.trans_le (Nat.pow_le_pow_right (by decide) hn))
  rw [← (clockSeq_bytes t).1, ← (clockSeq_bytes t).2, UuidText.scanned, hword _ (by decide),
    hword _ (by decide), hword _ (by decide), hword _ (by decide)]
  exact ⟨rfl, rfl, rfl⟩

/-- **The packer** accepts a text and is left with the bytes of its value, whatever was there before. -/
theorem parseUuid_text (t : UuidText) (tee : Mem) :
    (parseUuid t.cstr tee).1 = 0 ∧ packBytes (parseUuid t.cstr tee).2 = storeName t.value := by
  have hbytes : ∀ x < 12, storeStr (fun _ => 0) t.node.chars x = t.node.chars.getD x 0 := by
    intro x hx
    rw [storeStr, if_pos (hx.trans_eq t.node.length_eq.symm)]
  obtain ⟨hzero, hstored⟩ := packLoop_row t.node hbytes (Nat.le_refl 6) (t.scanned tee)
  obtain ⟨hfirst, hd6, hd7⟩ := scanned_bytes t tee
  set l := packLoop (storeStr (fun _ => 0) t.node.chars) 6 (t.scanned tee) with hl
  have hparse : parseUuid t.cstr tee =
      (0, store8 (store8 l.2 15 (t.scanned tee 15)) 14 (t.scanned tee 14)) := by
    have hscan : sscanf packFormat t.cstr.chars 0 ⟨tee, fun _ => 0⟩ =
        (5, ⟨t.scanned tee, storeStr (fun _ => 0) t.node.chars⟩) := sscanf_text t tee _
    rw [parseUuid, hscan]
    dsimp only
    rw [if_neg (by decide), ← hl, if_neg (not_not.mpr hzero)]
  have hlow : (List.range 8).map l.2 = (List.range 8).map (t.scanned tee) := by
    refine List.map_congr_left fun x hx => ?_
    have hx := List.mem_range.mp hx
    rw [hstored x (by omega), if_neg (by omega)]
  have hhigh : ∀ j < 8, 2 ≤ j → l.2 (15 - j) = UInt8.ofNat (t.clockByte j) := by
    intro j hj htwo
    have hround : 13 - (15 - j) = j - 2 := by omega
    have hfst : 2 * (j - 2) + 4 = 2 * j := by omega
    have hsnd : 2 * (j - 2) + 1 + 4 = 2 * j + 1 := by omega
    rw [hstored _ (by omega), if_pos (by omega), hround, node_digit, node_digit, hfst, hsnd]
    rfl
  rw [hparse]
  refine ⟨rfl, ?_⟩
  have hsplit : ∀ m : Mem, packBytes m = (List.range 8).map m ++
      [m 8, m 9, m 10, m 11, m 12, m 13, m 14, m 15] := fun m => rfl
  have hclock : ((List.range 8).map fun j => UInt8.ofNat (t.clockByte j)).reverse =
      [UInt8.ofNat (t.clockByte 7), UInt8.ofNat (t.clockByte 6), UInt8.ofNat (t.clockByte 5),
        UInt8.ofNat (t.clockByte 4), UInt8.ofNat (t.clockByte 3), UInt8.ofNat (t.clockByte 2),
        UInt8.ofNat (t.clockByte 1), UInt8.ofNat (t.clockByte 0)] := rfl
  rw [storeName_value, ← hfirst, ← hlow, hclock, ← hd6, ← hd7, ← hhigh 7 (by decide) (by decide),
    ← hhigh 6 (by decide) (by decide), ← hhigh 5 (by decide) (by decide), ← hhigh 4 (by decide) (by decide),
    ← hhigh 3 (by decide) (by decide), ← hhigh 2 (by decide) (by decide), hsplit]
  rfl

/-! ## 6. The three programs -/

theorem strtoul16_readsRow : ReadsRow Libc.strtoul16 := by
  intro r rest hrest
  refine Libc.strtoul16_row r (by decide) (by decide) ?_
  rcases hrest with rfl | hrest
  · exact Libc.stops_nil
  · obtain ⟨s, rfl⟩ := List.head?_eq_some_iff.mp hrest
    exact Libc.stops_dash s

/-- **One text, the same sixteen bytes.**  The kernel, the clients and the packer accept every UUID that is
written as it should be, whatever the structures held before, and leave the same bytes in them: a UUID of the
packer and one of a client that were read from one text match. -/
theorem uuids_agree (t : UuidText) (u v : TaskUuid) (tee : Mem) :
    (uuidParse t.cstr u).1 = 0 ∧ (teeUuidParse t.cstr v).1 = 0 ∧ (parseUuid t.cstr tee).1 = 0 ∧
    storeName (uuidParse t.cstr u).2 = packBytes (parseUuid t.cstr tee).2 ∧
    storeName (teeUuidParse t.cstr v).2 = packBytes (parseUuid t.cstr tee).2 ∧
    ∀ a : TaskUuid, storeName a = packBytes (parseUuid t.cstr tee).2 →
      matchUuids a (uuidParse t.cstr u).2 = true ∧ matchUuids a (teeUuidParse t.cstr v).2 = true := by
  obtain ⟨hpack, hbytes⟩ := parseUuid_text t tee
  rw [uuidParse, teeUuidParse, uuidParseBy_text strtoul_readsRow rfl, uuidParseBy_text strtoul16_readsRow rfl,
    hbytes]
  refine ⟨rfl, rfl, hpack, rfl, rfl, fun a ha => ?_⟩
  have heq : a = t.value := storeName_injective ha
  exact ⟨matchUuids_iff.mpr heq, matchUuids_iff.mpr heq⟩

end AndixOs.Uuid
