/-
# A key behind a PIN

`sample_new_key` makes a random key, encrypts it with a key that is made from a PIN, and stores it with
the vector that it used and the hash of the key.  `read_key` asks for the PIN up to four times and takes
the first one with which it decrypts something of that hash.

`aes_crypt_cbc` leaves behind another vector, and `read_key` has it work on `store.crypted_iv` itself.  From
the second try on it is the last block of the encrypted key (`readLoop_cons`), and the right PIN does
not open the key any more.  `readKey_right_iff` says what comes of every sequence of PINs.
-/
import AndixOs.Lib.Cbc
import AndixOs.Tee.Types
import AndixOs.Trustlet.Install
import AndixOs.Trustlet.Pbkdf2

namespace AndixOs.Trustlet

open AndixOs.Tee (teeSuccess teeErrorBadParameters teeErrorItemNotFound teeErrorGeneric)

/-! ## 1. PINs -/

def teeErrorSecurity : UInt32 := 0xFFFF000F

/-- `INPUT_SIZE`. -/
def inputSize : Nat := 100

/-- A line that is typed: `getinput` takes no more than the buffer has room for.  With it, what stands
behind the buffer. -/
structure PinEntry where
  typed : List UInt8
  length_le : typed.length ≤ inputSize
  behind : List UInt8

/-- The buffer after `read`, which fills it with zeros before. -/
def PinEntry.input (e : PinEntry) : List UInt8 :=
  e.typed ++ List.replicate (inputSize - e.typed.length) 0

/-- The PIN: what `strlen` takes for the string in the buffer. -/
def PinEntry.pin (e : PinEntry) : List UInt8 := (e.input ++ e.behind).takeWhile (· != 0)

/-- `PBKDF2_SALT`. -/
def pbkdf2Salt : List UInt8 :=
  [0x61, 0x65, 0x73, 0x5F, 0x74, 0x72, 0x75, 0x73, 0x74, 0x6C, 0x65, 0x74, 0x5F, 0x65, 0x78, 0x61,
    0x6D, 0x70, 0x6C, 0x65]

/-- `PBKDF2_ITERATIONS`. -/
def pbkdf2Iterations : Nat := 2048

/-- `keystore_t`. -/
structure KeyStore where
  cryptedIv : Bytes 16
  cryptedKey : Bytes 32
  hash : Bytes 32

/-- `sizeof(keystore_t)`. -/
def sizeofKeystore : Nat := 80

def KeyStore.bytes (store : KeyStore) : List UInt8 :=
  store.cryptedIv.toList ++ (store.cryptedKey.toList ++ store.hash.toList)

/-- The structure that a row of bytes is read into. -/
def KeyStore.ofBytes (l : List UInt8) : KeyStore :=
  ⟨firstBlock 16 l, firstBlock 32 (l.drop 16), firstBlock 32 (l.drop 48)⟩

/-! ## 2. The two functions -/

section Code

variable (encrypt decrypt : Bytes 32 → Bytes 16 → Bytes 16) (hash : List UInt8 → Bytes 32)

/-- `userkey`. -/
def userKey (pin : List UInt8) : Bytes 32 :=
  ⟨pbkdf2Sha256Hmac hash pin pbkdf2Salt pbkdf2Iterations 32, by
    rw [pbkdf2_eq_prefixed]
    exact length_pbkdf2 (by decide)⟩

/-- `sha2` of a key. -/
def keyHash (key : List UInt8) : Bytes 32 := hash (sha2Update sha2Starts key)

/-- The structure that `sample_new_key` writes. -/
def newStore (iv : Bytes 16) (masterkey : Bytes 32) (entry : PinEntry) : KeyStore where
  cryptedIv := iv
  cryptedKey :=
    ⟨(cbcEncrypt (encrypt (userKey hash entry.pin)) 2 iv masterkey.toList).1, length_cbcEncrypt _ 2 iv _⟩
  hash := keyHash hash masterkey.toList

/-- `sample_new_key`, with what comes from the random numbers: what it returns, and the file. -/
def sampleNewKey (paramTypes : UInt32) (opened : Bool) (iv : Bytes 16) (masterkey : Bytes 32)
    (entry : PinEntry) : UInt32 × Option (List UInt8) :=
  if paramTypes ≠ teeParamTypes 1 0 0 0 then (teeErrorBadParameters, none)
  else if ¬ opened then (teeErrorGeneric, none)
  else (teeSuccess, some (newStore encrypt hash iv masterkey entry).bytes)

/-- What came of `read_key`: what it returned, if it is not asking, and what it wrote to the output. -/
structure ReadKeyRun where
  result : Option UInt32
  decryptedKey : Option (List UInt8)
  deriving DecidableEq

/-- The loop of `read_key`, with the lines that are typed; `iv` is `store.crypted_iv`. -/
def readLoop (store : KeyStore) : List PinEntry → Nat → Bytes 16 → ReadKeyRun
  | [], _, _ => ⟨none, none⟩
  | e :: es, tries, iv =>
    let r := cbcDecrypt (decrypt (userKey hash e.pin)) 2 iv store.cryptedKey.toList
    if keyHash hash r.1 = store.hash then ⟨some teeSuccess, some r.1⟩
    else if tries + 1 > 3 then ⟨some teeErrorSecurity, none⟩
    else readLoop store es (tries + 1) r.2

/-- `read_key`, with the file if there is one. -/
def readKey (file : Option (List UInt8)) (entries : List PinEntry) : ReadKeyRun :=
  match file with
  | none => ⟨some teeErrorItemNotFound, none⟩
  | some l =>
    if l.length < sizeofKeystore then ⟨some teeErrorItemNotFound, none⟩
    else
      let store := KeyStore.ofBytes l
      readLoop decrypt hash store entries 0 store.cryptedIv

end Code

/-! ## 3. One try -/

variable {encrypt decrypt : Bytes 32 → Bytes 16 → Bytes 16} {hash : List UInt8 → Bytes 32}
  {store : KeyStore} {iv : Bytes 16} {masterkey : Bytes 32} {first e right : PinEntry}
  {es wrong : List PinEntry} {tries : Nat}

/-- A line with room behind it: the PIN does not depend on what stands behind the buffer. -/
theorem pin_of_short (h : e.typed.length < inputSize) : e.pin = e.typed.takeWhile (· != 0) := by
  obtain ⟨k, hk⟩ : ∃ k, inputSize - e.typed.length = k + 1 := ⟨inputSize - e.typed.length - 1, by omega⟩
  rw [PinEntry.pin, PinEntry.input, hk, List.replicate_succ, List.append_assoc, List.cons_append]
  by_cases hall : ∀ c ∈ e.typed, (c != 0) = true
  · rw [List.takeWhile_append_of_pos hall, List.takeWhile_cons_of_neg (by simp), List.append_nil,
      List.takeWhile_eq_self_iff.mpr hall]
  · rw [List.takeWhile_append, if_neg]
    intro hlen
    exact hall (List.takeWhile_eq_self_iff.mp
      ((List.takeWhile_prefix (· != 0)).eq_of_length hlen))

/-- The structure is read as it was written. -/
theorem ofBytes_bytes (store : KeyStore) : KeyStore.ofBytes store.bytes = store := by
  have hiv : store.cryptedIv.toList.length = 16 := store.cryptedIv.toList_length
  have hkey : store.cryptedKey.toList.length = 32 := store.cryptedKey.toList_length
  have hdrop : store.bytes.drop 16 = store.cryptedKey.toList ++ store.hash.toList := List.drop_left' hiv
  have hdrop' : store.bytes.drop 48 = store.hash.toList ++ [] := by
    have hsum : 48 = 16 + 32 := rfl
    rw [hsum, ← List.drop_drop, hdrop, List.drop_left' hkey, List.append_nil]
  rw [KeyStore.ofBytes, hdrop, hdrop', firstBlock_append, firstBlock_append, KeyStore.bytes,
    firstBlock_append]

theorem length_bytes (store : KeyStore) : store.bytes.length = sizeofKeystore := by
  simp [KeyStore.bytes, sizeofKeystore]

/-- The PIN opens the stored key, with the vector `iv`. -/
def Opens (decrypt : Bytes 32 → Bytes 16 → Bytes 16) (hash : List UInt8 → Bytes 32) (store : KeyStore)
    (masterkey : Bytes 32) (iv : Bytes 16) (e : PinEntry) : Prop :=
  (cbcDecrypt (decrypt (userKey hash e.pin)) 2 iv store.cryptedKey.toList).1 = masterkey.toList

/-- The last block of the encrypted key. -/
def KeyStore.lastBlock (store : KeyStore) : Bytes 16 := firstBlock 16 (store.cryptedKey.toList.drop 16)

/-- One of the PINs opens the key, each with the vector of its try. -/
def SomeOpens (decrypt : Bytes 32 → Bytes 16 → Bytes 16) (hash : List UInt8 → Bytes 32)
    (store : KeyStore) (masterkey : Bytes 32) : Bytes 16 → List PinEntry → Prop
  | _, [] => False
  | iv, e :: es => Opens decrypt hash store masterkey iv e ∨
      SomeOpens decrypt hash store masterkey store.lastBlock es

/-- The store keeps the hash of the key, and no other key of its length has it. -/
def HashOf (hash : List UInt8 → Bytes 32) (store : KeyStore) (masterkey : Bytes 32) : Prop :=
  ∀ key : List UInt8, key.length = 32 → (keyHash hash key = store.hash ↔ key = masterkey.toList)

/-- **One try**: it ends the loop if the PIN opens the key, or if it is the last one; and the vector of the
next one is the last block of the encrypted key. -/
theorem readLoop_cons (hhash : HashOf hash store masterkey) :
    (Opens decrypt hash store masterkey iv e ∧ readLoop decrypt hash store (e :: es) tries iv =
      ⟨some teeSuccess, some masterkey.toList⟩) ∨
    (¬ Opens decrypt hash store masterkey iv e ∧ readLoop decrypt hash store (e :: es) tries iv =
      if tries + 1 > 3 then ⟨some teeErrorSecurity, none⟩
      else readLoop decrypt hash store es (tries + 1) store.lastBlock) := by
  have hlen : (cbcDecrypt (decrypt (userKey hash e.pin)) 2 iv store.cryptedKey.toList).1.length = 32 :=
    length_cbcDecrypt _ 2 iv _
  have hiff := hhash _ hlen
  have hnext : (cbcDecrypt (decrypt (userKey hash e.pin)) 2 iv store.cryptedKey.toList).2 =
      store.lastBlock := cbcDecrypt_vector _ 1 iv _
  by_cases hopens : Opens decrypt hash store masterkey iv e
  · refine Or.inl ⟨hopens, ?_⟩
    rw [readLoop, if_pos (hiff.mpr hopens), hopens]
  · refine Or.inr ⟨hopens, ?_⟩
    rw [readLoop, if_neg (hiff.not.mpr hopens), hnext]

/-! ## 4. The tries -/

/-- **A run in which a PIN opens the key.** -/
theorem readLoop_opens (hhash : HashOf hash store masterkey) : ∀ {es : List PinEntry} {tries : Nat}
    {iv : Bytes 16}, SomeOpens decrypt hash store masterkey iv es → tries + es.length ≤ 4 →
      readLoop decrypt hash store es tries iv = ⟨some teeSuccess, some masterkey.toList⟩
  | [], _, _, h, _ => h.elim
  | e :: es, tries, iv, h, hlen => by
    rw [List.length_cons] at hlen
    rcases readLoop_cons hhash with ⟨-, heq⟩ | ⟨hno, heq⟩
    · exact heq
    · have hrest := h.resolve_left hno
      have hne : es ≠ [] := by
        rintro rfl
        exact hrest
      have hpos := List.length_pos_iff.mpr hne
      rw [heq, if_neg (by omega)]
      exact readLoop_opens hhash hrest (by omega)

/-- **A run in which none does**: after the fourth it is over, and nothing is written. -/
theorem readLoop_closed (hhash : HashOf hash store masterkey) : ∀ {es : List PinEntry} {tries : Nat}
    {iv : Bytes 16}, ¬ SomeOpens decrypt hash store masterkey iv es → es ≠ [] → tries + es.length ≤ 4 →
      readLoop decrypt hash store es tries iv =
        if tries + es.length = 4 then ⟨some teeErrorSecurity, none⟩ else ⟨none, none⟩
  | [], _, _, _, hne, _ => absurd rfl hne
  | e :: es, tries, iv, h, _, hlen => by
    rw [List.length_cons] at hlen ⊢
    obtain ⟨hno, hrest⟩ := not_or.mp h
    rcases readLoop_cons hhash with ⟨hopens, -⟩ | ⟨-, heq⟩
    · exact absurd hopens hno
    rw [heq]
    by_cases hnil : es = []
    · subst hnil
      rw [List.length_nil, readLoop]
      exact if_congr (by omega) rfl rfl
    · have hpos := List.length_pos_iff.mpr hnil
      rw [if_neg (by omega), readLoop_closed hhash hrest hnil (by omega)]
      exact if_congr (by omega) rfl rfl

/-- The last of the PINs. -/
theorem someOpens_concat : ∀ {wrong : List PinEntry} {iv : Bytes 16},
    SomeOpens decrypt hash store masterkey iv (wrong ++ [right]) ↔
      SomeOpens decrypt hash store masterkey iv wrong ∨
        Opens decrypt hash store masterkey (if wrong = [] then iv else store.lastBlock) right
  | [], iv => by simp [SomeOpens]
  | e :: es, iv => by
    rw [List.cons_append, SomeOpens, SomeOpens, someOpens_concat, if_neg (List.cons_ne_nil e es),
      or_assoc]
    cases es <;> simp

/-! ## 5. What comes of a sequence of PINs -/

/-- A hash function that tells keys apart does so in a store. -/
theorem hashOf_newStore (hhash : ∀ a b : Bytes 32, hash a.toList = hash b.toList → a = b) :
    HashOf hash (newStore encrypt hash iv masterkey first) masterkey := by
  intro key hlen
  have htaken : ∀ l : List UInt8, l.length = 32 → keyHash hash l = hash l := by
    intro l hl
    rw [keyHash, sha2Update_eq, taken_of_lt (by omega)]
    rfl
  have hstore : (newStore encrypt hash iv masterkey first).hash = hash masterkey.toList :=
    htaken _ masterkey.toList_length
  rw [hstore, htaken key hlen]
  constructor
  · intro h
    exact congrArg List.Vector.toList (hhash ⟨key, hlen⟩ masterkey h)
  · rintro rfl
    rfl

/-- **The right PIN** opens the key with the vector of the store, and with no other. -/
theorem opens_right (hcipher : ∀ key x, decrypt key (encrypt key x) = x) (hpin : right.pin = first.pin)
    (iv' : Bytes 16) :
    Opens decrypt hash (newStore encrypt hash iv masterkey first) masterkey iv' right ↔ iv' = iv := by
  have hkey : (newStore encrypt hash iv masterkey first).cryptedKey.toList =
      (cbcEncrypt (encrypt (userKey hash first.pin)) 2 iv masterkey.toList).1 ++ [] :=
    (List.append_nil _).symm
  have hinverse : (cbcDecrypt (decrypt (userKey hash first.pin)) 2 iv
      (newStore encrypt hash iv masterkey first).cryptedKey.toList).1 = masterkey.toList := by
    rw [hkey, cbc_inverse (hcipher _) (by rw [List.Vector.toList_length])]
    exact List.take_of_length_le (by rw [List.Vector.toList_length])
  rw [Opens, hpin, ← hinverse]
  exact cbcDecrypt_inj _ 1 _

/-- `read_key` on the file of `sample_new_key` is the loop on the structure that was written. -/
theorem readKey_eq_readLoop (entries : List PinEntry) : readKey decrypt hash
    (sampleNewKey encrypt hash (teeParamTypes 1 0 0 0) true iv masterkey first).2 entries =
      readLoop decrypt hash (newStore encrypt hash iv masterkey first) entries 0 iv := by
  have hfile : (sampleNewKey encrypt hash (teeParamTypes 1 0 0 0) true iv masterkey first).2 =
      some (newStore encrypt hash iv masterkey first).bytes := rfl
  have hiv : (newStore encrypt hash iv masterkey first).cryptedIv = iv := rfl
  rw [hfile, readKey]
  dsimp only
  rw [length_bytes, if_neg (Nat.lt_irrefl _), ofBytes_bytes, hiv]

/-- **`read_key`**, for a key that was made with the PIN of `first`.  Up to three PINs and then the right one
give the key exactly if there are none before it, or the vector of the store is the last block of the encrypted
key, or one of them opens the key with the vector of its try.  Four PINs are refused, and nothing is
written, exactly if none of them does. -/
theorem readKey_right_iff (hcipher : ∀ key x, decrypt key (encrypt key x) = x)
    (hhash : ∀ a b : Bytes 32, hash a.toList = hash b.toList → a = b) (iv : Bytes 16)
    (masterkey : Bytes 32) (first : PinEntry) (wrong : List PinEntry) :
    let file := (sampleNewKey encrypt hash (teeParamTypes 1 0 0 0) true iv masterkey first).2
    let store := newStore encrypt hash iv masterkey first
    (∀ right, wrong.length ≤ 3 → right.pin = first.pin →
      (readKey decrypt hash file (wrong ++ [right]) = ⟨some teeSuccess, some masterkey.toList⟩ ↔
        wrong = [] ∨ iv = store.lastBlock ∨ SomeOpens decrypt hash store masterkey iv wrong)) ∧
    (wrong.length = 4 → (readKey decrypt hash file wrong = ⟨some teeErrorSecurity, none⟩ ↔
      ¬ SomeOpens decrypt hash store masterkey iv wrong)) := by
  intro file store
  have hstore : HashOf hash store masterkey := hashOf_newStore hhash
  have hread : ∀ entries, readKey decrypt hash file entries = readLoop decrypt hash store entries 0 iv :=
    readKey_eq_readLoop
  constructor
  · intro right hlen hpin
    have hconcat : SomeOpens decrypt hash store masterkey iv (wrong ++ [right]) ↔
        SomeOpens decrypt hash store masterkey iv wrong ∨
          Opens decrypt hash store masterkey (if wrong = [] then iv else store.lastBlock) right :=
      someOpens_concat
    have hlen' : 0 + (wrong ++ [right]).length ≤ 4 := by
      rw [List.length_append, List.length_singleton]
      omega
    have hwhole : readKey decrypt hash file (wrong ++ [right]) =
        ⟨some teeSuccess, some masterkey.toList⟩ ↔
          SomeOpens decrypt hash store masterkey iv (wrong ++ [right]) := by
      rw [hread]
      refine ⟨fun h => ?_, fun h => readLoop_opens hstore h hlen'⟩
      by_contra hno
      rw [readLoop_closed hstore hno (by simp) hlen'] at h
      split at h <;> exact absurd h (by simp)
    rw [hwhole, hconcat, opens_right hcipher hpin]
    by_cases hnil : wrong = []
    · simp [hnil]
    · rw [if_neg hnil]
      constructor
      · rintro (hsome | hlast)
        · exact Or.inr (Or.inr hsome)
        · exact Or.inr (Or.inl hlast.symm)
      · rintro (hno | hlast | hsome)
        · exact absurd hno hnil
        · exact Or.inr hlast.symm
        · exact Or.inl hsome
  · intro hlen
    have hlen' : 0 + wrong.length ≤ 4 := by omega
    rw [hread]
    refine ⟨fun h hsome => ?_, fun hno => ?_⟩
    · rw [readLoop_opens hstore hsome hlen'] at h
      exact absurd h (by simp)
    · rw [readLoop_closed hstore hno (by rintro rfl; exact absurd hlen (by decide)) hlen', hlen]
      rfl

/-! ## 6. A store that does not open again -/

/-- A hash function that tells keys apart. -/
def plainHash (l : List UInt8) : Bytes 32 :=
  if l.length = 32 then firstBlock 32 l
  else if l.getLast? = some 1 then firstBlock 32 (l.take 1) else Bytes.zero 32

/-- A cipher. -/
def plainCipher (key : Bytes 32) (x : Bytes 16) : Bytes 16 := xorBytes x (firstBlock 16 key.toList)

theorem plainHash_inj (a b : Bytes 32) (h : plainHash a.toList = plainHash b.toList) : a = b := by
  rw [plainHash, plainHash, if_pos a.toList_length, if_pos b.toList_length] at h
  have ha := firstBlock_append a []
  have hb := firstBlock_append b []
  rw [List.append_nil] at ha hb
  rwa [ha, hb] at h

theorem plainCipher_inverse (key : Bytes 32) (x : Bytes 16) :
    plainCipher key (plainCipher key x) = x := xorBytes_cancel x _

/-- The key that is made from a PIN of one character: it begins with that. -/
theorem userKey_plain (c : UInt8) : userKey plainHash [c] = firstBlock 32 [c] := by
  have hfirst : prefixed plainHash [c] (pbkdf2Salt ++ bytesBe 4 1) = firstBlock 32 [c] := rfl
  have hshort : ∀ U : Bytes 32, U.toList.getLast? = some 0 → plainHash ([c] ++ U.toList) = Bytes.zero 32 := by
    intro U hU
    have hlen : ([c] ++ U.toList).length ≠ 32 := by simp
    rw [plainHash, if_neg hlen, List.getLast?_append, hU, Option.some_or]
    exact if_neg (by decide)
  have hchain : ∀ j, prfChain (prefixed plainHash) [c] (firstBlock 32 [c]) (j + 1) = Bytes.zero 32 := by
    intro j
    induction j with
    | zero => exact hshort (firstBlock 32 [c]) rfl
    | succ j ih =>
      rw [prfChain, ih]
      exact hshort (Bytes.zero 32) rfl
  refine List.Vector.toList_injective ?_
  have hkey : (userKey plainHash [c]).toList =
      pbkdf2Sha256Hmac plainHash [c] pbkdf2Salt pbkdf2Iterations 32 := rfl
  have hone : (32 + 32 - 1) / 32 = 0 + 1 := rfl
  have htaken : taken [c] = [c] ∧ taken pbkdf2Salt = pbkdf2Salt :=
    ⟨taken_of_lt (by simp), taken_of_lt (by decide)⟩
  rw [hkey, pbkdf2_eq_prefixed, htaken.1, htaken.2, pbkdf2, hone, prfBlocks_succ, prfBlock, hfirst,
    prfXor_of_zero hchain]
  exact List.take_left' (List.Vector.toList_length _)

/-- A line of one character. -/
def oneCharacter (c : UInt8) : PinEntry := ⟨[c], by simp [inputSize], []⟩

theorem pin_oneCharacter {c : UInt8} (h : c ≠ 0) : (oneCharacter c).pin = [c] := by
  rw [pin_of_short (by simp [oneCharacter, inputSize]), oneCharacter,
    List.takeWhile_cons_of_pos (by simpa using h), List.takeWhile_nil]

/-- A vector, a key of 31 zeros and a seven, and one of two equal blocks. -/
def plainIv : Bytes 16 := firstBlock 16 [1]
def plainKey : Bytes 32 := firstBlock 32 (List.replicate 31 0 ++ [7])
def evenKey : Bytes 32 := firstBlock 32 (List.replicate 32 7)

/-- The store of a key with the PIN `1`. -/
def plainStore (key : Bytes 32) : KeyStore := newStore plainCipher plainHash plainIv key (oneCharacter 0x31)

def plainCrypted (key : Bytes 32) : List UInt8 :=
  (cbcEncrypt (plainCipher (firstBlock 32 [0x31])) 2 plainIv key.toList).1

theorem cryptedKey_plain (key : Bytes 32) : (plainStore key).cryptedKey.toList = plainCrypted key := by
  rw [plainCrypted, ← userKey_plain, ← pin_oneCharacter (c := 0x31) (by decide)]
  rfl

/-- Two equal blocks end in the vector that they were encrypted with, others do not. -/
theorem plain_blocks : firstBlock 16 ((plainCrypted evenKey).drop 16) = plainIv ∧
    firstBlock 16 ((plainCrypted plainKey).drop 16) ≠ plainIv := by
  decide +kernel

/-- The two blocks of the other key. -/
def plainBlocks : List UInt8 := 0x30 :: List.replicate 15 0 ++ 1 :: List.replicate 14 0 ++ [7]

theorem plainCrypted_plainKey : plainCrypted plainKey = plainBlocks := by decide +kernel

/-- The PIN `2` decrypts something else, with the vector and with the last block. -/
theorem plain_two :
    (cbcDecrypt (plainCipher (firstBlock 32 [0x32])) 2 plainIv plainBlocks).1 ≠ plainKey.toList ∧
      (cbcDecrypt (plainCipher (firstBlock 32 [0x32])) 2 (firstBlock 16 (plainBlocks.drop 16)) plainBlocks).1 ≠
        plainKey.toList := by
  decide +kernel

theorem lastBlock_plain (key : Bytes 32) :
    (plainStore key).lastBlock = firstBlock 16 ((plainCrypted key).drop 16) := by
  rw [KeyStore.lastBlock, cryptedKey_plain]

/-- The PIN `2` opens the key in no try. -/
theorem not_opens_two {iv' : Bytes 16} (hiv : iv' = plainIv ∨ iv' = (plainStore plainKey).lastBlock) :
    ¬ Opens plainCipher plainHash (plainStore plainKey) plainKey iv' (oneCharacter 0x32) := by
  rw [lastBlock_plain, plainCrypted_plainKey] at hiv
  rw [Opens, cryptedKey_plain, plainCrypted_plainKey, pin_oneCharacter (by decide), userKey_plain]
  rcases hiv with rfl | rfl
  · exact plain_two.1
  · exact plain_two.2

/-- The PIN `1` after the PIN `2` three times, for a key of two equal blocks; and the PIN `2` four times. -/
theorem readKey_right_tries :
    readKey plainCipher plainHash
      (sampleNewKey plainCipher plainHash (teeParamTypes 1 0 0 0) true plainIv evenKey (oneCharacter 0x31)).2
      ([oneCharacter 0x32, oneCharacter 0x32, oneCharacter 0x32] ++ [oneCharacter 0x31]) =
        ⟨some teeSuccess, some evenKey.toList⟩ ∧
    readKey plainCipher plainHash
      (sampleNewKey plainCipher plainHash (teeParamTypes 1 0 0 0) true plainIv plainKey (oneCharacter 0x31)).2
      [oneCharacter 0x32, oneCharacter 0x32, oneCharacter 0x32, oneCharacter 0x32] =
        ⟨some teeErrorSecurity, none⟩ := by
  constructor
  · have hlast : plainIv = (plainStore evenKey).lastBlock := plain_blocks.1.symm.trans (lastBlock_plain _).symm
    exact ((readKey_right_iff plainCipher_inverse plainHash_inj plainIv evenKey (oneCharacter 0x31)
      [oneCharacter 0x32, oneCharacter 0x32, oneCharacter 0x32]).1 (oneCharacter 0x31) (by decide) rfl).mpr
      (Or.inr (Or.inl hlast))
  · have hfirst := not_opens_two (Or.inl rfl)
    have hnext := not_opens_two (Or.inr rfl)
    exact ((readKey_right_iff plainCipher_inverse plainHash_inj plainIv plainKey (oneCharacter 0x31)
      [oneCharacter 0x32, oneCharacter 0x32, oneCharacter 0x32, oneCharacter 0x32]).2 rfl).mpr
      (not_or.mpr ⟨hfirst, not_or.mpr ⟨hnext, not_or.mpr ⟨hnext, not_or.mpr ⟨hnext, id⟩⟩⟩⟩)

/-- **The PIN `1` after the PIN `2`** does not open the key. -/
theorem readKey_second_try : readKey plainCipher plainHash
    (sampleNewKey plainCipher plainHash (teeParamTypes 1 0 0 0) true plainIv plainKey (oneCharacter 0x31)).2
    [oneCharacter 0x32, oneCharacter 0x31] ≠ ⟨some teeSuccess, some plainKey.toList⟩ := by
  have hright : ¬ Opens plainCipher plainHash (plainStore plainKey) plainKey (plainStore plainKey).lastBlock
      (oneCharacter 0x31) := by
    rw [plainStore, opens_right plainCipher_inverse rfl, ← plainStore, lastBlock_plain]
    exact plain_blocks.2
  have hclosed : ¬ SomeOpens plainCipher plainHash (plainStore plainKey) plainKey plainIv
      [oneCharacter 0x32, oneCharacter 0x31] :=
    not_or.mpr ⟨not_opens_two (Or.inl rfl), not_or.mpr ⟨hright, id⟩⟩
  have hfew : 0 + [oneCharacter 0x32, oneCharacter 0x31].length ≠ 4 := by decide
  rw [readKey_eq_readLoop, readLoop_closed (hashOf_newStore plainHash_inj) hclosed (List.cons_ne_nil _ _)
    (by decide), if_neg hfew]
  exact fun h => absurd h (by simp)

end AndixOs.Trustlet
