/-
# Result codes and origins of the TEE interface
-/
import Mathlib.Data.List.Basic

namespace AndixOs.Tee

/-! ## 1. Result codes -/

def teeSuccess : UInt32 := 0x00000000
def teeErrorGeneric : UInt32 := 0xFFFF0000
def teeErrorBadParameters : UInt32 := 0xFFFF0006
def teeErrorBadState : UInt32 := 0xFFFF0007
def teeErrorItemNotFound : UInt32 := 0xFFFF0008
def teeErrorOutOfMemory : UInt32 := 0xFFFF000C
def teeErrorCommunication : UInt32 := 0xFFFF000E

/-! ## 2. Origins of a result -/

def teeOriginTee : UInt32 := 3
def teeOriginTrustedApp : UInt32 := 4

/-! ## 3. What a trustlet is asked for -/

/-- The `operation` of a `TA_RPC`. -/
inductive TaOperation where
  | taOpenSession
  | taCloseSession
  | taInvoke
  deriving DecidableEq

end AndixOs.Tee
