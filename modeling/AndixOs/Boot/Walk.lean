/-
# Walks over the boot parameters

Four functions of `atags.c` read a list of tags from its start.  Each goes to the next tag by `hdr.size`,
which it takes as it finds it, until it stands on the tag it looks for or in front of `ATAG_NONE`.  An
address is a word of the processor, and what goes over its end begins again at 0.

`Boot.Atags` is about lists as a boot loader should leave them.  Here the memory may hold anything.

* `terminates_iff`: such a function ends exactly when its walk does not come back to a tag;
* `terminates_of_forward`: it ends where sizes are not 0 and no address wraps.
-/
import AndixOs.Boot.Atags
import AndixOs.Lib.Loop

namespace AndixOs.Boot.Walk

open AndixOs

/-! ## 1. The loops -/

/-- `atag->hdr.size`. -/
def sizeAt (m : Mem) (atag : UInt32) : UInt32 := word m atag.toNat

/-- `atag->hdr.tag`. -/
def tagAt (m : Mem) (atag : UInt32) : UInt32 := word m (atag + 4).toNat

/-- `ptr + (atag->hdr.size * 4)`. -/
def nextAt (m : Mem) (atag : UInt32) : UInt32 := atag + sizeAt m atag * 4

/-- The loop of the three functions that look for a tag. -/
def searchRound (m : Mem) (want atag : UInt32) : UInt32 ⊕ Option UInt32 :=
  if tagAt m atag = want then .inr (some atag)
  else
    let atag := nextAt m atag
    if tagAt m atag ≠ atagNone then .inl atag else .inr none

/-- The loop of `atag_copy`, with `size`. -/
def copyRound (m : Mem) (s : UInt32 × UInt32) : (UInt32 × UInt32) ⊕ UInt32 :=
  let size := s.1 + sizeAt m s.2 * 4
  let atag := nextAt m s.2
  if tagAt m atag ≠ atagNone then .inl (size, atag) else .inr size

/-- `memcpy`, byte by byte. -/
def memcpy : Mem → Nat → Nat → Nat → Mem
  | m, _, _, 0 => m
  | m, dst, src, count + 1 => memcpy (store8 m dst (m src)) (dst + 1) (src + 1) count

/-! ## 2. The functions -/

/-- `atag_copy`: the memory, and the new list.  The inner `none` stands for a copy to `NULL`, the outer
one for a loop that has not ended. -/
def atagCopy (kmalloc : UInt32 → Option UInt32) (m : Mem) (fuel : Nat) (startTag : UInt32) :
    Option (Option (Mem × UInt32)) :=
  (runLoop (copyRound m) fuel (0, startTag)).map fun size =>
    let size := size + 8
    (kmalloc size).map fun newTag => (memcpy m newTag.toNat startTag.toNat size.toNat, newTag)

/-- `atag_get_cmdline`. -/
def atagGetCmdline (m : Mem) (fuel : Nat) (startTag : UInt32) : Option (Option UInt32) :=
  (runLoop (searchRound m atagCmdline) fuel startTag).map (Option.map (· + 8))

/-- Where the loop of `atag_get_next_mem_tag` begins. -/
def skipMemTag (m : Mem) (startTag : UInt32) : UInt32 :=
  if tagAt m startTag = atagMem then nextAt m startTag else startTag

/-- `atag_get_next_mem_tag`. -/
def atagGetNextMemTag (m : Mem) (fuel : Nat) (startTag : UInt32) : Option (Option UInt32) :=
  runLoop (searchRound m atagMem) fuel (skipMemTag m startTag)

/-- `atag_get_revision_tag`. -/
def atagGetRevisionTag (m : Mem) (fuel : Nat) (startTag : UInt32) : Option (Option UInt32) :=
  runLoop (searchRound m atagRevision) fuel startTag

/-! ## 3. What is asked of a call -/

inductive WalkCall where
  | atagCopy (kmalloc : UInt32 → Option UInt32)
  | atagGetCmdline
  | atagGetNextMemTag
  | atagGetRevisionTag

/-- The call ends. -/
def WalkCall.Terminates (c : WalkCall) (m : Mem) (startTag : UInt32) : Prop :=
  match c with
  | .atagCopy kmalloc => ∃ fuel, (Walk.atagCopy kmalloc m fuel startTag).isSome = true
  | .atagGetCmdline => ∃ fuel, (Walk.atagGetCmdline m fuel startTag).isSome = true
  | .atagGetNextMemTag => ∃ fuel, (Walk.atagGetNextMemTag m fuel startTag).isSome = true
  | .atagGetRevisionTag => ∃ fuel, (Walk.atagGetRevisionTag m fuel startTag).isSome = true

/-- The tag that the call looks for. -/
def WalkCall.want : WalkCall → Option UInt32
  | .atagCopy _ => none
  | .atagGetCmdline => some atagCmdline
  | .atagGetNextMemTag => some atagMem
  | .atagGetRevisionTag => some atagRevision

/-- Where its walk begins. -/
def WalkCall.first (c : WalkCall) (m : Mem) (startTag : UInt32) : UInt32 :=
  match c with
  | .atagGetNextMemTag => skipMemTag m startTag
  | _ => startTag

/-- A walk stops on the tag it looks for, and in front of `ATAG_NONE`. -/
def StopsAt (m : Mem) (want : Option UInt32) (atag : UInt32) : Prop :=
  want = some (tagAt m atag) ∨ tagAt m (nextAt m atag) = atagNone

/-! ## 4. The loops walk -/

variable {m : Mem} {want atag startTag : UInt32}

instance finiteWord : Finite UInt32 :=
  Finite.of_injective UInt32.toFin fun _ _ h => UInt32.toFin_inj.mp h

theorem searchRound_walks (m : Mem) (want : UInt32) :
    Walks (searchRound m want) id (nextAt m) (StopsAt m (some want)) where
  last atag hstop := by
    rw [searchRound]
    by_cases hwant : tagAt m atag = want
    · exact ⟨some atag, if_pos hwant⟩
    · have hnone : tagAt m (nextAt m atag) = atagNone :=
        hstop.resolve_left fun h => hwant (Option.some.inj h).symm
      refine ⟨none, ?_⟩
      rw [if_neg hwant]
      exact if_neg (not_not.mpr hnone)
  goes atag hgo := by
    rw [StopsAt, not_or] at hgo
    obtain ⟨hwant, hnone⟩ := hgo
    refine ⟨nextAt m atag, ?_, rfl⟩
    rw [searchRound, if_neg fun h => hwant (congrArg some h.symm)]
    exact if_pos hnone

theorem copyRound_walks (m : Mem) : Walks (copyRound m) Prod.snd (nextAt m) (StopsAt m none) where
  last s hstop := by
    have hnone : tagAt m (nextAt m s.2) = atagNone := hstop.resolve_left nofun
    exact ⟨_, if_neg (not_not.mpr hnone)⟩
  goes s hgo := by
    rw [StopsAt, not_or] at hgo
    exact ⟨_, if_pos hgo.2, rfl⟩

/-- A search ends if its walk does not come back. -/
theorem search_ends_iff :
    (∃ fuel, (runLoop (searchRound m want) fuel atag).isSome = true) ↔
      ¬Returns (nextAt m) (StopsAt m (some want)) atag :=
  isSome_runLoop_iff.trans (searchRound_walks m want).ends_iff

theorem copy_ends_iff {size : UInt32} :
    (∃ fuel, (runLoop (copyRound m) fuel (size, atag)).isSome = true) ↔
      ¬Returns (nextAt m) (StopsAt m none) atag :=
  isSome_runLoop_iff.trans (copyRound_walks m).ends_iff

/-- **When the four functions end**: the walk does not come back to an address where it has been before it
stands on the tag it looks for, or in front of `ATAG_NONE`. -/
theorem terminates_iff (c : WalkCall) (m : Mem) (startTag : UInt32) :
    c.Terminates m startTag ↔ ¬Returns (nextAt m) (StopsAt m c.want) (c.first m startTag) := by
  cases c with
  | atagCopy kmalloc =>
    have hmap : ∀ fuel, (Walk.atagCopy kmalloc m fuel startTag).isSome =
        (runLoop (copyRound m) fuel (0, startTag)).isSome := fun fuel => Option.isSome_map
    simp only [WalkCall.Terminates, hmap]
    exact copy_ends_iff
  | atagGetCmdline =>
    have hmap : ∀ fuel, (Walk.atagGetCmdline m fuel startTag).isSome =
        (runLoop (searchRound m atagCmdline) fuel startTag).isSome := fun fuel => Option.isSome_map
    simp only [WalkCall.Terminates, hmap]
    exact search_ends_iff
  | atagGetNextMemTag => exact search_ends_iff
  | atagGetRevisionTag => exact search_ends_iff

/-- The next tag is behind this one: the size is not 0, and the address does not wrap. -/
def Forward (m : Mem) (atag : UInt32) : Prop :=
  0 < (sizeAt m atag).toNat ∧ atag.toNat + 4 * (sizeAt m atag).toNat < 4294967296

theorem Forward.lt (h : Forward m atag) : atag.toNat < (nextAt m atag).toNat := by
  obtain ⟨hsize, hend⟩ := h
  have hfour : (4 : UInt32).toNat = 4 := rfl
  rw [nextAt, UInt32.toNat_add, UInt32.toNat_mul, hfour]
  omega

/-- **A walk that goes forward ends**: as long as it has not come to what stops it, the sizes are not 0
and no address wraps. -/
theorem terminates_of_forward (c : WalkCall) (m : Mem) (startTag : UInt32)
    (h : ∀ n, (∀ k ≤ n, ¬StopsAt m c.want ((nextAt m)^[k] (c.first m startTag))) →
      Forward m ((nextAt m)^[n] (c.first m startTag))) : c.Terminates m startTag := by
  rw [terminates_iff]
  refine not_returns_of_lt UInt32.toNat fun n hgo => ?_
  rw [Function.iterate_succ_apply']
  exact (h n hgo).lt

/-- A tag of size 0 is its own next one. -/
theorem returns_of_size_zero {stop : UInt32 → Prop} (hsize : sizeAt m atag = 0) (hgo : ¬stop atag) :
    Returns (nextAt m) stop atag := by
  have hnext : nextAt m atag = atag := by rw [nextAt, hsize, UInt32.zero_mul, UInt32.add_zero]
  refine ⟨0, 1, Nat.zero_lt_one, hnext.symm, fun k hk => ?_⟩
  rw [Nat.lt_one_iff.mp hk]
  exact hgo

/-- A core tag of size 0 at 64, with zeros before and behind it. -/
def emptyCore : Mem := putWord (fun _ => 0) 68 atagCore

/-- **A tag of size 0** keeps all four, although `ATAG_NONE` is not far. -/
theorem size_zero_never_ends :
    sizeAt emptyCore 64 = 0 ∧ tagAt emptyCore 64 = atagCore ∧ tagAt emptyCore 72 = atagNone ∧
      ∀ c : WalkCall, ¬c.Terminates emptyCore 64 := by
  have hsize : sizeAt emptyCore 64 = 0 := by decide
  have htag : tagAt emptyCore 64 = atagCore := by decide
  have hnext : tagAt emptyCore (nextAt emptyCore 64) = atagCore := by decide
  refine ⟨hsize, htag, by decide, fun c => ?_⟩
  rw [terminates_iff, not_not]
  have hfirst : c.first emptyCore 64 = 64 := by
    cases c with
    | atagGetNextMemTag =>
      rw [WalkCall.first, skipMemTag, htag]
      exact if_neg (by decide)
    | _ => rfl
  rw [hfirst]
  refine returns_of_size_zero hsize ?_
  rw [StopsAt, htag, hnext]
  cases c <;> simp [WalkCall.want, atagCmdline, atagMem, atagRevision, atagCore, atagNone]

end AndixOs.Boot.Walk
