/-
# An interval tiled by blocks with headers

A heap without a separate index is a row of blocks.  Each block starts with a header of `hdr`
bytes that says how long its data is, and the next header stands right behind the data.
`Tiles hdr rd a bs e` says that reading headers with `rd` from `a` on finds exactly the blocks
`bs`, and that the last one ends at `e`.

The lemmas are the ones a proof about such a heap needs: cutting and joining rows
(`tiles_append`, `Tiles.split`), changing what the reader sees elsewhere (`Tiles.congr`), and
that blocks do not overlap (`Tiles.disjoint`).  A header may also say how long the block before
it is (`Tags`); such a row can be walked backwards.

Nothing here names the kernel.
-/
import Mathlib.Algebra.Ring.Nat
import Mathlib.Data.List.Basic

namespace AndixOs

/-- A block: where its header stands, how many bytes follow the header, and what else the header
says. -/
structure Block (F : Type) where
  addr : Nat
  size : Nat
  tag : F
  deriving DecidableEq

/-- `hdr` bytes of header, then the data. -/
def Block.stop {F : Type} (hdr : Nat) (b : Block F) : Nat := b.addr + hdr + b.size

@[simp] theorem Block.stop_mk {F : Type} (hdr a s : Nat) (t : F) :
    Block.stop hdr ⟨a, s, t⟩ = a + hdr + s := rfl

variable {F : Type} {hdr : Nat} {rd rd' : Nat → Nat × F} {a c e : Nat} {b : Block F}
  {bs cs : List (Block F)}

/-- The blocks `bs` tile `[a, e)`, as `rd` reads their headers. -/
def Tiles (hdr : Nat) (rd : Nat → Nat × F) : Nat → List (Block F) → Nat → Prop
  | a, [], e => a = e
  | a, b :: bs, e => b.addr = a ∧ rd a = (b.size, b.tag) ∧ Tiles hdr rd (b.stop hdr) bs e

/-! ## 1. Rows -/

theorem Tiles.le : ∀ {bs : List (Block F)} {a : Nat}, Tiles hdr rd a bs e → a ≤ e
  | [], _, h => Nat.le_of_eq h
  | b :: _, _, ⟨haddr, _, htl⟩ => by
    have hle := Tiles.le htl
    unfold Block.stop at hle
    omega

/-- Two rows, one behind the other, are one row. -/
theorem tiles_append : ∀ {bs : List (Block F)} {a : Nat},
    Tiles hdr rd a (bs ++ cs) e ↔ ∃ c, Tiles hdr rd a bs c ∧ Tiles hdr rd c cs e
  | [], a => by
    constructor
    · exact fun h => ⟨a, rfl, h⟩
    · rintro ⟨c, rfl, h⟩
      exact h
  | b :: bs, a => by
    constructor
    · rintro ⟨haddr, hrd, htl⟩
      obtain ⟨c, h1, h2⟩ := tiles_append.mp htl
      exact ⟨c, ⟨haddr, hrd, h1⟩, h2⟩
    · rintro ⟨c, ⟨haddr, hrd, h1⟩, h2⟩
      exact ⟨haddr, hrd, tiles_append.mpr ⟨c, h1, h2⟩⟩

/-- A row that reads the same headers is the same row. -/
theorem Tiles.congr : ∀ {bs : List (Block F)} {a : Nat}, Tiles hdr rd a bs e →
    (∀ b ∈ bs, rd' b.addr = rd b.addr) → Tiles hdr rd' a bs e
  | [], _, h, _ => h
  | b :: bs, _, ⟨haddr, hrd, htl⟩, hsame => by
    refine ⟨haddr, ?_, htl.congr fun c hc => hsame c (List.mem_cons_of_mem _ hc)⟩
    rw [← haddr, hsame b List.mem_cons_self, haddr, hrd]

/-- One block and the row behind it. -/
theorem Tiles.cons (haddr : b.addr = a) (hrd : rd a = (b.size, b.tag))
    (htl : Tiles hdr rd (b.stop hdr) bs e) : Tiles hdr rd a (b :: bs) e := ⟨haddr, hrd, htl⟩

/-! ## 2. Members -/

theorem Tiles.mem_rd : ∀ {bs : List (Block F)} {a : Nat}, Tiles hdr rd a bs e → b ∈ bs →
    rd b.addr = (b.size, b.tag)
  | c :: bs, _, ⟨haddr, hrd, htl⟩, hb => by
    rcases List.mem_cons.mp hb with rfl | hb
    · rw [haddr, hrd]
    · exact htl.mem_rd hb

theorem Tiles.mem_le : ∀ {bs : List (Block F)} {a : Nat}, Tiles hdr rd a bs e → b ∈ bs →
    a ≤ b.addr ∧ b.stop hdr ≤ e
  | c :: bs, _, ⟨haddr, _, htl⟩, hb => by
    rcases List.mem_cons.mp hb with rfl | hb
    · exact ⟨Nat.le_of_eq haddr.symm, htl.le⟩
    · obtain ⟨h1, h2⟩ := htl.mem_le hb
      unfold Block.stop at h1
      exact ⟨by omega, h2⟩

/-- The header at an address determines the block. -/
theorem Tiles.eq_of_addr {b' : Block F} (h : Tiles hdr rd a bs e) (hb : b ∈ bs) (hb' : b' ∈ bs)
    (haddr : b.addr = b'.addr) : b = b' := by
  have heq := (h.mem_rd hb).symm.trans ((congrArg rd haddr).trans (h.mem_rd hb'))
  obtain ⟨hsize, htag⟩ := Prod.mk.inj heq
  cases b
  cases b'
  simp_all

/-- **Blocks do not overlap.** -/
theorem Tiles.disjoint : ∀ {bs : List (Block F)} {a : Nat} {b b' : Block F},
    Tiles hdr rd a bs e → b ∈ bs → b' ∈ bs → b.addr ≠ b'.addr →
      b.stop hdr ≤ b'.addr ∨ b'.stop hdr ≤ b.addr
  | c :: bs, _, b, b', ⟨_, _, htl⟩, hb, hb', hne => by
    rcases List.mem_cons.mp hb with hbc | hbs <;> rcases List.mem_cons.mp hb' with hbc' | hbs'
    · exact absurd (hbc ▸ hbc' ▸ rfl) hne
    · exact Or.inl (hbc ▸ (htl.mem_le hbs').1)
    · exact Or.inr (hbc' ▸ (htl.mem_le hbs).1)
    · exact htl.disjoint hbs hbs' hne

/-- A row cut at one of its blocks. -/
theorem Tiles.split (h : Tiles hdr rd a bs e) (hb : b ∈ bs) :
    ∃ pre post, bs = pre ++ b :: post ∧ Tiles hdr rd a pre b.addr ∧
      rd b.addr = (b.size, b.tag) ∧ Tiles hdr rd (b.stop hdr) post e := by
  obtain ⟨pre, post, rfl⟩ := List.append_of_mem hb
  obtain ⟨c, hpre, haddr, hrd, hpost⟩ := tiles_append.mp h
  exact ⟨pre, post, rfl, haddr ▸ hpre, haddr ▸ hrd, hpost⟩

/-- A row cut before a block that stands right behind another one. -/
theorem Tiles.split_after {l : Block F} (hpos : 0 < hdr) (h : Tiles hdr rd a bs e) (hl : l ∈ bs)
    (hb : b ∈ bs) (hnext : l.stop hdr = b.addr) :
    ∃ pre post, bs = pre ++ l :: b :: post := by
  obtain ⟨pre, post, rfl, hpre, hrd, hpost⟩ := h.split hl
  cases post with
  | nil =>
    have hlast := (h.mem_le hb).2
    have hend : l.stop hdr = e := hpost
    unfold Block.stop at hlast hend
    unfold Block.stop at hnext
    omega
  | cons d post =>
    have hd : d ∈ pre ++ l :: d :: post := by simp
    have hdb : d = b := h.eq_of_addr hd hb (hpost.1.trans hnext)
    exact ⟨pre, post, by rw [hdb]⟩

/-- A row has room for no more blocks than its headers allow. -/
theorem Tiles.length_le : ∀ {bs : List (Block F)} {a : Nat}, Tiles hdr rd a bs e →
    a + hdr * bs.length ≤ e
  | [], _, h => by
    have hae : _ = e := h
    simp [hae]
  | b :: bs, _, ⟨haddr, _, htl⟩ => by
    have hle := htl.length_le
    unfold Block.stop at hle
    rw [List.length_cons, Nat.mul_succ]
    omega

/-! ## 3. Walking the headers -/

/-- The header addresses found by walking from `a` while below `e`, at most `fuel` of them. -/
def walkRow (hdr : Nat) (rd : Nat → Nat × F) (e : Nat) : Nat → Nat → List Nat
  | 0, _ => []
  | fuel + 1, a => if a < e then a :: walkRow hdr rd e fuel (a + hdr + (rd a).1) else []

/-- A walk through a row finds its blocks. -/
theorem Tiles.walkRow_eq (hpos : 0 < hdr) : ∀ {bs : List (Block F)} {a : Nat} (fuel : Nat),
    Tiles hdr rd a bs e → bs.length < fuel → walkRow hdr rd e fuel a = bs.map Block.addr
  | [], a, fuel + 1, h, _ => by
    have hae : a = e := h
    simp [walkRow, hae]
  | b :: bs, a, fuel + 1, ⟨haddr, hrd, htl⟩, hlen => by
    have hle := htl.le
    have hlt : a < e := by
      unfold Block.stop at hle
      omega
    have htl' : Tiles hdr rd (a + hdr + (rd a).1) bs e := by
      rw [hrd, ← haddr]
      exact htl
    rw [walkRow, if_pos hlt, htl'.walkRow_eq hpos fuel (Nat.lt_of_succ_lt_succ hlen), List.map_cons, haddr]

/-! ## 4. One row at most -/

/-- Where the walk is known up to `c`, a longer row starts with what is known. -/
theorem Tiles.extends (hpos : 0 < hdr) : ∀ {bs cs : List (Block F)} {a : Nat},
    Tiles hdr rd a bs c → Tiles hdr rd a cs e → c ≤ e →
      ∃ rest, cs = bs ++ rest ∧ Tiles hdr rd c rest e
  | [], cs, _, h, h', _ => by
    have hac : _ = c := h
    exact ⟨cs, rfl, hac ▸ h'⟩
  | b :: bs, cs, _, ⟨haddr, hrd, htl⟩, h', hle => by
    have hb := htl.le
    unfold Block.stop at hb
    cases cs with
    | nil =>
      have hae : _ = e := h'
      omega
    | cons b' cs =>
      obtain ⟨haddr', hrd', htl'⟩ := h'
      obtain ⟨hsize, htag⟩ := Prod.mk.inj (hrd.symm.trans hrd')
      obtain rfl : b = b' := by
        cases b
        cases b'
        simp_all
      obtain ⟨rest, rfl, hrest⟩ := htl.extends hpos htl' hle
      exact ⟨rest, rfl, hrest⟩

/-- **The headers determine the row.** -/
theorem Tiles.unique (hpos : 0 < hdr) (h : Tiles hdr rd a bs e) (h' : Tiles hdr rd a cs e) :
    bs = cs := by
  obtain ⟨rest, rfl, hrest⟩ := h.extends hpos h' (Nat.le_refl e)
  cases rest with
  | nil => exact (List.append_nil bs).symm
  | cons b rest =>
    have hle := hrest.2.2.le
    have haddr := hrest.1
    unfold Block.stop at hle
    omega

/-- Headers and data fill the row. -/
theorem Tiles.total : ∀ {bs : List (Block F)} {a : Nat}, Tiles hdr rd a bs e →
    a + (bs.map fun b => hdr + b.size).sum = e
  | [], _, h => h
  | b :: bs, _, ⟨haddr, _, htl⟩ => by
    have hsum := htl.total
    unfold Block.stop at hsum
    rw [List.map_cons, List.sum_cons]
    omega

/-! ## 5. Boundary tags -/

/-- Each header says, as `prev` reads it, how many bytes the block before it has; `p` is what the
first one says. -/
def Tags (prev : Nat → Nat) : Nat → List (Block F) → Prop
  | _, [] => True
  | p, b :: bs => prev b.addr = p ∧ Tags prev b.size bs

/-- The size of the last block, or `p` if there is none. -/
def lastSize : Nat → List (Block F) → Nat
  | p, [] => p
  | _, b :: bs => lastSize b.size bs

@[simp] theorem lastSize_concat : ∀ (p : Nat) (bs : List (Block F)) (b : Block F),
    lastSize p (bs ++ [b]) = b.size
  | _, [], _ => rfl
  | _, c :: bs, b => lastSize_concat c.size bs b

theorem tags_append {prev : Nat → Nat} : ∀ {p : Nat} {bs : List (Block F)},
    Tags prev p (bs ++ cs) ↔ Tags prev p bs ∧ Tags prev (lastSize p bs) cs
  | _, [] => (and_iff_right trivial).symm
  | p, b :: bs => by
    have ih : Tags prev b.size (bs ++ cs) ↔
        Tags prev b.size bs ∧ Tags prev (lastSize b.size bs) cs := tags_append
    constructor
    · rintro ⟨hb, htl⟩
      exact ⟨⟨hb, (ih.mp htl).1⟩, (ih.mp htl).2⟩
    · rintro ⟨⟨hb, htl⟩, hcs⟩
      exact ⟨hb, ih.mpr ⟨htl, hcs⟩⟩

/-- Tags that are read the same are the same. -/
theorem Tags.congr {prev prev' : Nat → Nat} : ∀ {p : Nat} {bs : List (Block F)},
    Tags prev p bs → (∀ b ∈ bs, prev' b.addr = prev b.addr) → Tags prev' p bs
  | _, [], _, _ => trivial
  | _, b :: _, ⟨hb, htl⟩, hsame =>
    ⟨(hsame b List.mem_cons_self).trans hb,
      htl.congr fun c hc => hsame c (List.mem_cons_of_mem _ hc)⟩

end AndixOs
