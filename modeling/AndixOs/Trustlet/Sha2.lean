/-
# SHA-256

The trustlets hash with `sha2_starts`, `sha2_update` and `sha2_finish` of TropicSSL.  A context stands
here for the bytes that went into it; `sha2_update` takes its length as an `int`, so that what is too
long for one is as good as empty.  `sha2Finish` pads what went in and processes it in blocks of 64 bytes.
-/
import AndixOs.Lib.Pbkdf2

namespace AndixOs.Trustlet

/-! ## 1. The block function -/

/-- `ROTR`. -/
def rotr (x : UInt32) (n : UInt32) : UInt32 := x >>> n ||| x <<< (32 - n)

def s0 (x : UInt32) : UInt32 := rotr x 7 ^^^ rotr x 18 ^^^ x >>> 3
def s1 (x : UInt32) : UInt32 := rotr x 17 ^^^ rotr x 19 ^^^ x >>> 10
def s2 (x : UInt32) : UInt32 := rotr x 2 ^^^ rotr x 13 ^^^ rotr x 22
def s3 (x : UInt32) : UInt32 := rotr x 6 ^^^ rotr x 11 ^^^ rotr x 25

def f0 (x y z : UInt32) : UInt32 := x &&& y ||| z &&& (x ||| y)
def f1 (x y z : UInt32) : UInt32 := z ^^^ (x &&& (y ^^^ z))

/-- The words `A` to `H`. -/
structure Sha2State where
  a : UInt32
  b : UInt32
  c : UInt32
  d : UInt32
  e : UInt32
  f : UInt32
  g : UInt32
  h : UInt32
  deriving DecidableEq

/-- The macro `P`; the next one is called with the words moved by one place. -/
def Sha2State.round (s : Sha2State) (x k : UInt32) : Sha2State :=
  let temp1 := s.h + s3 s.e + f1 s.e s.f s.g + k + x
  let temp2 := s2 s.a + f0 s.a s.b s.c
  ⟨temp1 + temp2, s.a, s.b, s.c, s.d + temp1, s.e, s.f, s.g⟩

/-- The constants of the rounds. -/
def roundConstants : List UInt32 :=
  [
    0x428A2F98, 0x71374491, 0xB5C0FBCF, 0xE9B5DBA5, 0x3956C25B, 0x59F111F1, 0x923F82A4, 0xAB1C5ED5,
    0xD807AA98, 0x12835B01, 0x243185BE, 0x550C7DC3, 0x72BE5D74, 0x80DEB1FE, 0x9BDC06A7, 0xC19BF174,
    0xE49B69C1, 0xEFBE4786, 0x0FC19DC6, 0x240CA1CC, 0x2DE92C6F, 0x4A7484AA, 0x5CB0A9DC, 0x76F988DA,
    0x983E5152, 0xA831C66D, 0xB00327C8, 0xBF597FC7, 0xC6E00BF3, 0xD5A79147, 0x06CA6351, 0x14292967,
    0x27B70A85, 0x2E1B2138, 0x4D2C6DFC, 0x53380D13, 0x650A7354, 0x766A0ABB, 0x81C2C92E, 0x92722C85,
    0xA2BFE8A1, 0xA81A664B, 0xC24B8B70, 0xC76C51A3, 0xD192E819, 0xD6990624, 0xF40E3585, 0x106AA070,
    0x19A4C116, 0x1E376C08, 0x2748774C, 0x34B0BCB5, 0x391C0CB3, 0x4ED8AA4A, 0x5B9CCA4F, 0x682E6FF3,
    0x748F82EE, 0x78A5636F, 0x84C87814, 0x8CC70208, 0x90BEFFFA, 0xA4506CEB, 0xBEF9A3F7, 0xC67178F2  ]

/-- The word of the macro `R`, from the 16 words before it. -/
def nextWord (w : List UInt32) : UInt32 :=
  s1 (w.getD 14 0) + w.getD 9 0 + s0 (w.getD 1 0) + w.getD 0 0

/-- The rounds, with the 16 words that come next. -/
def sha2Rounds : List UInt32 → List UInt32 → Sha2State → Sha2State
  | [], _, s => s
  | k :: ks, w, s => sha2Rounds ks (w.tail ++ [nextWord w]) (s.round (w.headD 0) k)

/-- `GET_ULONG_BE`, so many times. -/
def getWords : Nat → List UInt8 → List UInt32
  | 0, _ => []
  | k + 1, data =>
    ((data.getD 0 0).toUInt32 <<< 24 ||| (data.getD 1 0).toUInt32 <<< 16 |||
      (data.getD 2 0).toUInt32 <<< 8 ||| (data.getD 3 0).toUInt32) :: getWords k (data.drop 4)

/-- `sha2_process`. -/
def sha2Process (s : Sha2State) (data : List UInt8) : Sha2State :=
  let r := sha2Rounds roundConstants (getWords 16 data) s
  ⟨s.a + r.a, s.b + r.b, s.c + r.c, s.d + r.d, s.e + r.e, s.f + r.f, s.g + r.g, s.h + r.h⟩

/-! ## 2. Messages -/

/-- The state of `sha2_starts`. -/
def sha2Initial : Sha2State :=
  ⟨0x6A09E667, 0xBB67AE85, 0x3C6EF372, 0xA54FF53A, 0x510E527F, 0x9B05688C, 0x1F83D9AB, 0x5BE0CD19⟩

/-- `sha2_starts`: a context with nothing in it. -/
def sha2Starts : List UInt8 := []

/-- A length as `int`. -/
def intLength (l : List UInt8) : Int := (l.length : Int).bmod 4294967296

/-- `sha2_update`. -/
def sha2Update (ctx input : List UInt8) : List UInt8 :=
  if intLength input ≤ 0 then ctx else ctx ++ input

/-- What `sha2_finish` puts behind the message. -/
def sha2Padding (len : Nat) : List UInt8 :=
  let last := len % 64
  let padn := if last < 56 then 56 - last else 120 - last
  0x80 :: List.replicate (padn - 1) 0 ++ bytesBe 8 (len * 8)

/-- The state after so many blocks. -/
def sha2Blocks : Nat → List UInt8 → Sha2State → Sha2State
  | 0, _, s => s
  | k + 1, data, s => sha2Blocks k (data.drop 64) (sha2Process s (data.take 64))

/-- `PUT_ULONG_BE`. -/
def putUlongBe (x : UInt32) : List UInt8 :=
  [(x >>> 24).toUInt8, (x >>> 16).toUInt8, (x >>> 8).toUInt8, x.toUInt8]

def Sha2State.digest (s : Sha2State) : Bytes 32 :=
  ⟨[s.a, s.b, s.c, s.d, s.e, s.f, s.g, s.h].flatMap putUlongBe, rfl⟩

/-- `sha2_finish`. -/
def sha2Finish (ctx : List UInt8) : Bytes 32 :=
  let data := ctx ++ sha2Padding ctx.length
  (sha2Blocks (data.length / 64) data sha2Initial).digest

/-- `sha2`. -/
def sha2 (input : List UInt8) : Bytes 32 := sha2Finish (sha2Update sha2Starts input)

end AndixOs.Trustlet
