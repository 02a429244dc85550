/-
# Mapping physical memory

`map_phys_mem` takes a run of mapable pages and maps a physical range on it.  Which byte of the
range the returned address leads to is decided here (`mapPhysMem_maps_iff`): the mapping loop
starts at an address in the middle of a page and makes `size / 4096 + 1` rounds, so the last page
of a range that crosses one more boundary is missing.
-/
import AndixOs.Mm.Mapping

namespace AndixOs.Mm

variable {k : Kernel} {paddr size access cache buffer nonsecure : Nat}

/-! ## 1. What a caller relies on -/

/-- What `map_phys_mem` promises of an address `v` it returns: every byte of the range is reached,
with the access rights and in the address space asked for; the pages `q … q + n - 1` used were free
and are marked, and nothing else is marked or mapped. -/
structure PhysMapped (k k' : Kernel) (paddr size access nonsecure v : Nat) : Prop where
  bytes : ∀ o, o < size → ∃ l, translate k' (v + o) = some l ∧ l.pa = paddr + o ∧
    l.attr.ap = access % 8 ∧ l.attr.nonsecure = nonsecure % 2
  pages : ∃ q n,
    (∀ o, o < size → mmmStart + 4096 * q ≤ v + o ∧ v + o < mmmStart + 4096 * (q + n)) ∧
    (∀ p, q ≤ p → p < q + n → k.mmm.isFree p = true ∧ k'.mmm.isFree p = false) ∧
    (∀ p, p < q ∨ q + n ≤ p → k'.mmm.isFree p = k.mmm.isFree p) ∧
    ∀ va, va < mmmStart + 4096 * q ∨ mmmStart + 4096 * (q + n) ≤ va →
      walk k'.kernelTable va = walk k.kernelTable va

/-- The rounds of the mapping loop reach every page of the range. -/
def RoundsSuffice (paddr size : Nat) : Prop := (paddr % 4096 + size - 1) / 4096 ≤ size / 4096

/-- The first free run of mapable pages lies in megabytes whose coarse tables, where there are any,
have the NS asked for. -/
def NsAgrees (k : Kernel) (paddr size nonsecure : Nat) : Prop :=
  ∀ q, FirstRun k.mmm.isFree (neededPages paddr size) k.mmm.pages q → ∀ o, o < size →
    regionNs k.kernelTable nonsecure (mmmStart + 4096 * q + paddr % 4096 + o) = nonsecure % 2

/-! ## 2. The pages of a mapping -/

/-- The part of the promise that `map_phys_mem` always keeps. -/
theorem pages_of_mapsRange {k' : Kernel} {s : KernelMemInfo} {v q : Nat}
    (h : MapsRange k k' paddr size s v q) :
    ∃ q n,
      (∀ o, o < size → mmmStart + 4096 * q ≤ v + o ∧ v + o < mmmStart + 4096 * (q + n)) ∧
      (∀ p, q ≤ p → p < q + n → k.mmm.isFree p = true ∧ k'.mmm.isFree p = false) ∧
      (∀ p, p < q ∨ q + n ≤ p → k'.mmm.isFree p = k.mmm.isFree p) ∧
      ∀ va, va < mmmStart + 4096 * q ∨ mmmStart + 4096 * (q + n) ≤ va →
        walk k'.kernelTable va = walk k.kernelTable va := by
  have hin := h.inside
  have hn := neededPages_eq (show paddr < 4294967296 by omega) (show size < 4294967296 by omega)
  rw [if_pos hin] at hn
  have haddr := h.addr
  refine ⟨q, neededPages paddr size, ?_, ?_, ?_, ?_⟩
  · intro o ho
    constructor <;> omega
  · intro p h1 h2
    have hfree := h.run.run p h1 h2
    refine ⟨hfree, ?_⟩
    rw [h.marked, hfree, decide_eq_true ⟨h1, h2⟩]
    rfl
  · intro p hp
    rw [h.marked, decide_eq_false (by omega)]
    simp
  · intro va hva
    rw [h.walk]
    unfold mappedRun mmmStart at *
    rw [if_neg (by omega)]

/-- The first byte of the last page is where a missing round shows. -/
theorem lastByte_of_not_suffice (h : ¬ RoundsSuffice paddr size) (hs : 0 < size) :
    ∃ o, o < size ∧ size / 4096 < (paddr % 4096 + o) / 4096 := by
  unfold RoundsSuffice at h
  exact ⟨size - 1, by omega, by omega⟩

/-! ## 3. `map_phys_mem` -/

/-- **Where `map_phys_mem` maps what it was asked for.**  A successful mapping reaches every byte
of the range, with the rights and in the address space asked for, exactly when the rounds of its
loop reach every page and the coarse tables already there have the NS asked for. -/
theorem mapPhysMem_maps_iff (hk : MapableOk k) (hp : paddr < 4294967296) (hs : size < 4294967296)
    (hpos : 1 ≤ size) (hv : (mapPhysMem k paddr size access cache buffer nonsecure).1 ≠ 0) :
    PhysMapped k (mapPhysMem k paddr size access cache buffer nonsecure).2 paddr size access
        nonsecure (mapPhysMem k paddr size access cache buffer nonsecure).1 ↔
      RoundsSuffice paddr size ∧ NsAgrees k paddr size nonsecure := by
  rcases mapPhysMem_spec hk.words access cache buffer nonsecure hp hs with h0 | ⟨q, hq⟩
  · exact absurd h0 hv
  · constructor
    · intro h
      have hrounds : RoundsSuffice paddr size := by
        by_contra hno
        obtain ⟨o, ho, hlast⟩ := lastByte_of_not_suffice hno hpos
        obtain ⟨l, hl, -⟩ := h.bytes o ho
        rw [hq.translate hk ho, if_neg (by omega)] at hl
        exact absurd hl (by simp)
      refine ⟨hrounds, ?_⟩
      intro q' hq' o ho
      obtain rfl := hq.run.unique hq'
      obtain ⟨l, hl, -, -, hns⟩ := h.bytes o ho
      unfold RoundsSuffice at hrounds
      rw [hq.translate hk ho, if_pos (by omega)] at hl
      obtain rfl := Option.some.inj hl
      rw [hq.addr] at hns
      exact hns
    · rintro ⟨hrounds, hns⟩
      refine ⟨?_, pages_of_mapsRange hq⟩
      intro o ho
      unfold RoundsSuffice at hrounds
      have htr := hq.translate hk ho
      rw [if_pos (by omega)] at htr
      have hregion := hns q hq.run o ho
      rw [← hq.addr] at hregion
      exact ⟨_, htr, rfl, rfl, hregion⟩

/-- Right after the boot no megabyte of the mapable area has a table yet. -/
theorem bootKernel_nsAgrees (h : paddr + size < 4294967296) :
    NsAgrees bootKernel paddr size nonsecure := by
  intro q hq o ho
  have hin := hq.inside
  have hpages : bootKernel.mmm.pages = 262144 := rfl
  have hn := neededPages_eq (show paddr < 4294967296 by omega) (show size < 4294967296 by omega)
  rw [if_pos h] at hn
  unfold regionNs
  rw [show bootKernel.kernelTable = bootTable from rfl, bootTable_fault]
  unfold mmmStart
  omega

/-- The promise kept: 100 bytes inside a page. -/
theorem mapPhysMem_maps_inside :
    PhysMapped bootKernel (mapPhysMem bootKernel 0xB0000010 100 1 0 0 1).2 0xB0000010 100 1 1
      (mapPhysMem bootKernel 0xB0000010 100 1 0 0 1).1 :=
  (mapPhysMem_maps_iff bootKernel_mapableOk (by decide) (by decide) (by decide)
    (by decide +kernel)).mpr
    ⟨by unfold RoundsSuffice; decide, bootKernel_nsAgrees (by decide)⟩

/-- The promise broken: two bytes, one on each side of a page boundary.  The second page is not
mapped. -/
theorem mapPhysMem_misses_page :
    (mapPhysMem bootKernel 0xB0000FFF 2 1 0 0 1).1 = 0x80000FFF ∧
      ¬ PhysMapped bootKernel (mapPhysMem bootKernel 0xB0000FFF 2 1 0 0 1).2 0xB0000FFF 2 1 1
        (mapPhysMem bootKernel 0xB0000FFF 2 1 0 0 1).1 := by
  refine ⟨by decide +kernel, ?_⟩
  intro h
  obtain ⟨l, hl, -⟩ := h.bytes 1 (by decide)
  have hnone : translate (mapPhysMem bootKernel 0xB0000FFF 2 1 0 0 1).2
      ((mapPhysMem bootKernel 0xB0000FFF 2 1 0 0 1).1 + 1) = none := by
    decide +kernel
  rw [hnone] at hl
  exact absurd hl (by simp)

end AndixOs.Mm
