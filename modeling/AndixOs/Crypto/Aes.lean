/-
# The block cipher of the kernel

`aes.c` of TropicSSL: `aes_setkey_enc` and `aes_setkey_dec` make the round keys, `aes_crypt_ecb` enciphers or
deciphers a block with them, and `aes_crypt_cbc` a row of blocks.  A word is four bytes, the first one lowest, and a
round is four lookups for each word.
-/
import AndixOs.Crypto.AesTables
import AndixOs.Lib.Bytes

namespace AndixOs.Crypto

/-! ## 1. Words and tables -/

/-- `GET_ULONG_LE`. -/
def getUlongLe (b : List UInt8) (i : Nat) : UInt32 :=
  (b.getD i 0).toUInt32 ||| (b.getD (i + 1) 0).toUInt32 <<< 8 ||| (b.getD (i + 2) 0).toUInt32 <<< 16 |||
    (b.getD (i + 3) 0).toUInt32 <<< 24

/-- `PUT_ULONG_LE`. -/
def putUlongLe (n : UInt32) : List UInt8 :=
  [n.toUInt8, (n >>> 8).toUInt8, (n >>> 16).toUInt8, (n >>> 24).toUInt8]

/-- An entry of a table of words, `T[x & 0xFF]`. -/
def entry (t : List UInt32) (x : UInt32) : UInt32 := t.getD (x &&& 0xFF).toNat 0

/-- An entry of a table of bytes as `unsigned long`. -/
def entryByte (t : List UInt8) (x : UInt32) : UInt32 := (t.getD (x &&& 0xFF).toNat 0).toUInt32

/-! ## 2. The keys of the rounds -/

/-- `aes_context`: `rk` holds the words from `ctx->rk` on. -/
structure AesContext where
  nr : Nat
  rk : List UInt32

/-- `nr` for a `keysize`. -/
def aesRoundsOf : Int → Option Nat
  | 128 => some 10
  | 192 => some 12
  | 256 => some 14
  | _ => none

/-- A word of the schedule with its bytes substituted and turned, and the constant of the round. -/
def scheduleCore (rcon rk : UInt32) : UInt32 :=
  rcon ^^^ entryByte FSb (rk >>> 8) ^^^ entryByte FSb (rk >>> 16) <<< 8 ^^^ entryByte FSb (rk >>> 24) <<< 16 ^^^
    entryByte FSb rk <<< 24

/-- The loop body for ten rounds: `RK[4]` to `RK[7]` from `RK[0]` to `RK[3]`. -/
def scheduleTen (rcon : UInt32) (rk : List UInt32) : List UInt32 :=
  let rk4 := rk.getD 0 0 ^^^ scheduleCore rcon (rk.getD 3 0)
  let rk5 := rk.getD 1 0 ^^^ rk4
  let rk6 := rk.getD 2 0 ^^^ rk5
  let rk7 := rk.getD 3 0 ^^^ rk6
  [rk4, rk5, rk6, rk7]

/-- The loop body for twelve rounds: `RK[6]` to `RK[11]` from `RK[0]` to `RK[5]`. -/
def scheduleTwelve (rcon : UInt32) (rk : List UInt32) : List UInt32 :=
  let rk6 := rk.getD 0 0 ^^^ scheduleCore rcon (rk.getD 5 0)
  let rk7 := rk.getD 1 0 ^^^ rk6
  let rk8 := rk.getD 2 0 ^^^ rk7
  let rk9 := rk.getD 3 0 ^^^ rk8
  let rk10 := rk.getD 4 0 ^^^ rk9
  let rk11 := rk.getD 5 0 ^^^ rk10
  [rk6, rk7, rk8, rk9, rk10, rk11]

/-- The loop body for fourteen rounds: `RK[8]` to `RK[15]` from `RK[0]` to `RK[7]`. -/
def scheduleFourteen (rcon : UInt32) (rk : List UInt32) : List UInt32 :=
  let rk8 := rk.getD 0 0 ^^^ scheduleCore rcon (rk.getD 7 0)
  let rk9 := rk.getD 1 0 ^^^ rk8
  let rk10 := rk.getD 2 0 ^^^ rk9
  let rk11 := rk.getD 3 0 ^^^ rk10
  -- the word in the middle is substituted, but not turned
  let rk12 := rk.getD 4 0 ^^^ entryByte FSb rk11 ^^^ entryByte FSb (rk11 >>> 8) <<< 8 ^^^
    entryByte FSb (rk11 >>> 16) <<< 16 ^^^ entryByte FSb (rk11 >>> 24) <<< 24
  let rk13 := rk.getD 5 0 ^^^ rk12
  let rk14 := rk.getD 6 0 ^^^ rk13
  let rk15 := rk.getD 7 0 ^^^ rk14
  [rk8, rk9, rk10, rk11, rk12, rk13, rk14, rk15]

/-- The loop: `RK` goes on by as many words as the key has, once for each constant. -/
def scheduleLoop (body : UInt32 → List UInt32 → List UInt32) : List UInt32 → List UInt32 → List UInt32
  | [], rk => rk
  | rcon :: rcons, rk => rk ++ scheduleLoop body rcons (body rcon rk)

/-- The words of the key: `keysize >> 5` times `GET_ULONG_LE`. -/
def keyWords (key : List UInt8) (n : Nat) : List UInt32 := (List.range n).map fun i => getUlongLe key (4 * i)

/-- `aes_setkey_enc`. -/
def aesSetkeyEnc (ctx : AesContext) (key : List UInt8) (keysize : Int) : AesContext :=
  match aesRoundsOf keysize with
  | none => ctx
  | some nr =>
    let rk := keyWords key (keysize / 32).toNat
    { nr := nr
      rk := match nr with
        | 10 => scheduleLoop scheduleTen (RCON.take 10) rk
        | 12 => scheduleLoop scheduleTwelve (RCON.take 8) rk
        | 14 => scheduleLoop scheduleFourteen (RCON.take 7) rk
        | _ => rk }

/-- A word of a round key for deciphering. -/
def invScheduleWord (sk : UInt32) : UInt32 :=
  entry RT0 (entryByte FSb sk) ^^^ entry RT1 (entryByte FSb (sk >>> 8)) ^^^
    entry RT2 (entryByte FSb (sk >>> 16)) ^^^ entry RT3 (entryByte FSb (sk >>> 24))

/-- The four words from `SK[p]` on. -/
def fourWords (sk : List UInt32) (p : Nat) : List UInt32 :=
  [sk.getD p 0, sk.getD (p + 1) 0, sk.getD (p + 2) 0, sk.getD (p + 3) 0]

/-- The loop over `i`: the round keys from the last but one down to the second. -/
def invScheduleLoop (sk : List UInt32) : Nat → List UInt32
  | 0 => []
  | i + 1 => (fourWords sk (4 * (i + 1))).map invScheduleWord ++ invScheduleLoop sk i

/-- `aes_setkey_dec`. -/
def aesSetkeyDec (ctx : AesContext) (key : List UInt8) (keysize : Int) : AesContext :=
  match aesRoundsOf keysize with
  | none => ctx
  | some nr =>
    let cty := aesSetkeyEnc ctx key keysize
    { nr := nr
      rk := fourWords cty.rk (cty.nr * 4) ++ invScheduleLoop cty.rk (nr - 1) ++ fourWords cty.rk 0 }

/-! ## 3. A block -/

/-- The words `X0` to `X3`. -/
structure Words where
  x0 : UInt32
  x1 : UInt32
  x2 : UInt32
  x3 : UInt32
  deriving DecidableEq

/-- `AES_FROUND`, with the round key at `rk[p]`. -/
def aesFround (rk : List UInt32) (p : Nat) (y : Words) : Words where
  x0 := rk.getD p 0 ^^^ entry FT0 y.x0 ^^^ entry FT1 (y.x1 >>> 8) ^^^ entry FT2 (y.x2 >>> 16) ^^^
    entry FT3 (y.x3 >>> 24)
  x1 := rk.getD (p + 1) 0 ^^^ entry FT0 y.x1 ^^^ entry FT1 (y.x2 >>> 8) ^^^ entry FT2 (y.x3 >>> 16) ^^^
    entry FT3 (y.x0 >>> 24)
  x2 := rk.getD (p + 2) 0 ^^^ entry FT0 y.x2 ^^^ entry FT1 (y.x3 >>> 8) ^^^ entry FT2 (y.x0 >>> 16) ^^^
    entry FT3 (y.x1 >>> 24)
  x3 := rk.getD (p + 3) 0 ^^^ entry FT0 y.x3 ^^^ entry FT1 (y.x0 >>> 8) ^^^ entry FT2 (y.x1 >>> 16) ^^^
    entry FT3 (y.x2 >>> 24)

/-- `AES_RROUND`, with the round key at `rk[p]`. -/
def aesRround (rk : List UInt32) (p : Nat) (y : Words) : Words where
  x0 := rk.getD p 0 ^^^ entry RT0 y.x0 ^^^ entry RT1 (y.x3 >>> 8) ^^^ entry RT2 (y.x2 >>> 16) ^^^
    entry RT3 (y.x1 >>> 24)
  x1 := rk.getD (p + 1) 0 ^^^ entry RT0 y.x1 ^^^ entry RT1 (y.x0 >>> 8) ^^^ entry RT2 (y.x3 >>> 16) ^^^
    entry RT3 (y.x2 >>> 24)
  x2 := rk.getD (p + 2) 0 ^^^ entry RT0 y.x2 ^^^ entry RT1 (y.x1 >>> 8) ^^^ entry RT2 (y.x0 >>> 16) ^^^
    entry RT3 (y.x3 >>> 24)
  x3 := rk.getD (p + 3) 0 ^^^ entry RT0 y.x3 ^^^ entry RT1 (y.x2 >>> 8) ^^^ entry RT2 (y.x1 >>> 16) ^^^
    entry RT3 (y.x0 >>> 24)

/-- The last round of enciphering. -/
def aesFlast (rk : List UInt32) (p : Nat) (y : Words) : Words where
  x0 := rk.getD p 0 ^^^ entryByte FSb y.x0 ^^^ entryByte FSb (y.x1 >>> 8) <<< 8 ^^^
    entryByte FSb (y.x2 >>> 16) <<< 16 ^^^ entryByte FSb (y.x3 >>> 24) <<< 24
  x1 := rk.getD (p + 1) 0 ^^^ entryByte FSb y.x1 ^^^ entryByte FSb (y.x2 >>> 8) <<< 8 ^^^
    entryByte FSb (y.x3 >>> 16) <<< 16 ^^^ entryByte FSb (y.x0 >>> 24) <<< 24
  x2 := rk.getD (p + 2) 0 ^^^ entryByte FSb y.x2 ^^^ entryByte FSb (y.x3 >>> 8) <<< 8 ^^^
    entryByte FSb (y.x0 >>> 16) <<< 16 ^^^ entryByte FSb (y.x1 >>> 24) <<< 24
  x3 := rk.getD (p + 3) 0 ^^^ entryByte FSb y.x3 ^^^ entryByte FSb (y.x0 >>> 8) <<< 8 ^^^
    entryByte FSb (y.x1 >>> 16) <<< 16 ^^^ entryByte FSb (y.x2 >>> 24) <<< 24

/-- The last round of deciphering. -/
def aesRlast (rk : List UInt32) (p : Nat) (y : Words) : Words where
  x0 := rk.getD p 0 ^^^ entryByte RSb y.x0 ^^^ entryByte RSb (y.x3 >>> 8) <<< 8 ^^^
    entryByte RSb (y.x2 >>> 16) <<< 16 ^^^ entryByte RSb (y.x1 >>> 24) <<< 24
  x1 := rk.getD (p + 1) 0 ^^^ entryByte RSb y.x1 ^^^ entryByte RSb (y.x0 >>> 8) <<< 8 ^^^
    entryByte RSb (y.x3 >>> 16) <<< 16 ^^^ entryByte RSb (y.x2 >>> 24) <<< 24
  x2 := rk.getD (p + 2) 0 ^^^ entryByte RSb y.x2 ^^^ entryByte RSb (y.x1 >>> 8) <<< 8 ^^^
    entryByte RSb (y.x0 >>> 16) <<< 16 ^^^ entryByte RSb (y.x3 >>> 24) <<< 24
  x3 := rk.getD (p + 3) 0 ^^^ entryByte RSb y.x3 ^^^ entryByte RSb (y.x2 >>> 8) <<< 8 ^^^
    entryByte RSb (y.x1 >>> 16) <<< 16 ^^^ entryByte RSb (y.x0 >>> 24) <<< 24

/-- The loop, two rounds at a time: `i` is counted down, and `RK` goes on by eight words. -/
def aesRoundLoop (round : Nat → Words → Words) : Nat → Nat → Words → Words
  | 0, _, x => x
  | i + 1, p, x => aesRoundLoop round i (p + 8) (round (p + 4) (round p x))

def aesEncrypt : Nat := 1

def aesDecrypt : Nat := 0

/-- `aes_crypt_ecb`. -/
def aesCryptEcb (ctx : AesContext) (mode : Nat) (input : Bytes 16) : Bytes 16 :=
  let x : Words :=
    ⟨getUlongLe input.toList 0 ^^^ ctx.rk.getD 0 0, getUlongLe input.toList 4 ^^^ ctx.rk.getD 1 0,
      getUlongLe input.toList 8 ^^^ ctx.rk.getD 2 0, getUlongLe input.toList 12 ^^^ ctx.rk.getD 3 0⟩
  let i := ctx.nr / 2 - 1
  let x :=
    if mode = aesDecrypt then
      let x := aesRoundLoop (aesRround ctx.rk) i 4 x
      aesRlast ctx.rk (8 * i + 8) (aesRround ctx.rk (8 * i + 4) x)
    else
      let x := aesRoundLoop (aesFround ctx.rk) i 4 x
      aesFlast ctx.rk (8 * i + 8) (aesFround ctx.rk (8 * i + 4) x)
  ⟨putUlongLe x.x0 ++ putUlongLe x.x1 ++ putUlongLe x.x2 ++ putUlongLe x.x3, rfl⟩

end AndixOs.Crypto
