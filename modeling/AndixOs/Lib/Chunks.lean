/-
# Byte strings in chunks

A file of fixed-size blocks holds a byte string as the concatenation of its chunks, each but the last
of full size (`Chunked`).  A position of the string is then a chunk and an offset by division, and a
copy that stays inside one chunk can be made there (`overlay_flatten`), as long as it does not end
before a chunk that has others behind it.

Nothing here names the kernel.
-/
import AndixOs.Lib.Bytes

namespace AndixOs

variable {B : Nat} {l a b c : List UInt8} {p off : Nat} {pre post cs : List (List UInt8)}

/-! ## 1. Copies into a byte string -/

/-- A copy in the second of two strings. -/
theorem overlay_append_right (l₁ l : List UInt8) (p : Nat) (b : List UInt8) :
    overlay (l₁ ++ l) (l₁.length + p) b = l₁ ++ overlay l p b := by
  simp only [overlay, List.take_length_add_append, Nat.add_assoc, List.drop_length_add_append,
    List.append_assoc]

/-- A copy in the first. -/
theorem overlay_append_left (h : p + b.length ≤ l.length) (r : List UInt8) :
    overlay (l ++ r) p b = overlay l p b ++ r := by
  simp only [overlay, List.take_append_of_le_length (show p ≤ l.length by omega),
    List.drop_append_of_le_length h, List.append_assoc]

/-- Two copies one behind the other. -/
theorem overlay_overlay (hp : p ≤ l.length) :
    overlay (overlay l p a) (p + a.length) b = overlay l p (a ++ b) := by
  have htake : (l.take p).length = p := List.length_take_of_le hp
  have hlen : (l.take p ++ a).length = p + a.length := by rw [List.length_append, htake]
  have hdrop : (overlay l p a).drop (p + a.length + b.length) =
      l.drop (p + a.length + b.length) := by
    rw [overlay, ← hlen, List.drop_length_add_append, List.drop_drop]
  rw [overlay, hdrop, overlay, List.take_append_of_le_length hlen.ge, ← hlen, List.take_length,
    hlen, overlay, List.length_append, ← Nat.add_assoc]
  simp only [List.append_assoc]

/-- The length after a copy that begins inside. -/
theorem length_overlay (hp : p ≤ l.length) :
    (overlay l p b).length = max l.length (p + b.length) := by
  simp only [overlay, List.length_append, List.length_take, List.length_drop]
  omega

/-! ## 2. Chunks -/

/-- No chunk is larger than `B`, and each but the last is full. -/
def Chunked (B : Nat) : List (List UInt8) → Prop
  | [] => True
  | [c] => c.length ≤ B
  | c :: cs => c.length = B ∧ Chunked B cs

/-- Chunks that are all full. -/
def Full (B : Nat) (cs : List (List UInt8)) : Prop := ∀ c ∈ cs, c.length = B

theorem Full.length_flatten : ∀ {cs : List (List UInt8)}, Full B cs →
    cs.flatten.length = B * cs.length
  | [], _ => rfl
  | c :: cs, h => by
    have ih := Full.length_flatten (fun d hd => h d (List.mem_cons_of_mem _ hd))
    rw [List.flatten_cons, List.length_append, h c List.mem_cons_self, ih, List.length_cons,
      Nat.mul_succ, Nat.add_comm]

/-- The chunks before a chunk are full. -/
theorem chunked_append : ∀ {pre : List (List UInt8)}, Chunked B (pre ++ c :: post) ↔
    Full B pre ∧ Chunked B (c :: post)
  | [] => (and_iff_right nofun).symm
  | [d] => by
    have hfull : Full B [d] ↔ d.length = B := List.forall_mem_singleton
    exact and_congr_left' hfull.symm
  | d :: d' :: pre => by
    have ih : Chunked B (d' :: pre ++ c :: post) ↔ Full B (d' :: pre) ∧ Chunked B (c :: post) :=
      chunked_append
    have hfull : Full B (d :: d' :: pre) ↔ d.length = B ∧ Full B (d' :: pre) :=
      List.forall_mem_cons
    rw [hfull, and_assoc, ← ih]
    exact Iff.rfl

theorem Chunked.head_le : Chunked B (c :: post) → c.length ≤ B := by
  cases post with
  | nil => exact id
  | cons d post => exact fun h => h.1.le

/-- A chunk with others behind it is full. -/
theorem Chunked.head_full (h : Chunked B (c :: post)) (hpost : post ≠ []) : c.length = B := by
  cases post with
  | nil => exact absurd rfl hpost
  | cons d post => exact h.1

/-- Full chunks are chunks. -/
theorem Full.chunked : ∀ {cs : List (List UInt8)}, Full B cs → Chunked B cs
  | [], _ => trivial
  | [c], h => (h c List.mem_cons_self).le
  | c :: _ :: _, h => ⟨h c List.mem_cons_self,
    Full.chunked (fun x hx => h x (List.mem_cons_of_mem _ hx))⟩

/-- The chunk in a chunk's place may be another, if it is full or the last, as that one was. -/
theorem Chunked.replace (h : Chunked B (pre ++ c :: post)) (ha : a.length ≤ B)
    (hfull : post ≠ [] → a.length = B) : Chunked B (pre ++ a :: post) := by
  obtain ⟨hpre, hrest⟩ := chunked_append.mp h
  refine chunked_append.mpr ⟨hpre, ?_⟩
  cases post with
  | nil => exact ha
  | cons d post => exact ⟨hfull (List.cons_ne_nil _ _), hrest.2⟩

/-- A string is as long as its full chunks and its last one. -/
theorem Full.length_snoc (h : Full B pre) (c : List UInt8) :
    (pre ++ [c]).flatten.length = B * pre.length + c.length := by
  rw [List.flatten_append, List.length_append, h.length_flatten, List.flatten_singleton]

/-! ## 3. Positions -/

/-- A position up to the end of the string lies in its chunk, if there is one with its number. -/
theorem Chunked.locate (hB : 0 < B) (h : Chunked B cs) (hp : p ≤ cs.flatten.length)
    (hchunk : p / B < cs.length) : ∃ pre c post, cs = pre ++ c :: post ∧ pre.length = p / B ∧
      Full B pre ∧ Chunked B (c :: post) ∧ p % B ≤ c.length := by
  have hsplit : cs = cs.take (p / B) ++ cs[p / B] :: cs.drop (p / B + 1) := by
    rw [List.cons_getElem_drop_succ, List.take_append_drop]
  have hlen : (cs.take (p / B)).length = p / B := List.length_take_of_le hchunk.le
  refine ⟨_, _, _, hsplit, hlen, ?_⟩
  rw [hsplit] at h hp
  obtain ⟨hpre, hrest⟩ := chunked_append.mp h
  refine ⟨hpre, hrest, ?_⟩
  have hmod := Nat.mod_lt p hB
  rcases hpost : cs.drop (p / B + 1) with _ | ⟨d, post⟩
  · rw [hpost, hpre.length_snoc, hlen] at hp
    have hdiv := Nat.div_add_mod p B
    omega
  · rw [hpost] at hrest
    exact (hrest.head_full (List.cons_ne_nil _ _)).symm ▸ hmod.le

/-- Where there is none, the chunks are full and the position is the end. -/
theorem Chunked.locate_end (h : Chunked B cs) (hp : p ≤ cs.flatten.length)
    (hchunk : cs.length ≤ p / B) : Full B cs ∧ p = B * cs.length := by
  have hdiv : B * cs.length ≤ p := (Nat.mul_le_mul_left B hchunk).trans (Nat.mul_div_le p B)
  rcases List.eq_nil_or_concat cs with rfl | ⟨pre, c, rfl⟩
  · exact ⟨nofun, Nat.le_zero.mp hp⟩
  · rw [List.concat_eq_append] at *
    obtain ⟨hpre, hlast⟩ := chunked_append.mp h
    have hle : c.length ≤ B := hlast.head_le
    rw [hpre.length_snoc] at hp
    rw [List.length_append, List.length_singleton, Nat.mul_succ] at hdiv ⊢
    have hc : c.length = B := by omega
    refine ⟨fun x hx => ?_, by omega⟩
    rcases List.mem_append.mp hx with hx | hx
    · exact hpre x hx
    · rw [List.mem_singleton.mp hx, hc]

/-- **A copy inside a chunk** that does not end before the chunk does, if others are behind it. -/
theorem overlay_flatten (hpre : Full B pre) (hfit : post ≠ [] → off + b.length ≤ c.length) :
    overlay (pre ++ c :: post).flatten (B * pre.length + off) b =
      (pre ++ overlay c off b :: post).flatten := by
  rw [List.flatten_append, List.flatten_cons, ← hpre.length_flatten, overlay_append_right,
    List.flatten_append, List.flatten_cons]
  cases post with
  | nil => simp
  | cons d post => rw [overlay_append_left (hfit (List.cons_ne_nil _ _))]

/-- Cutting the chunk off behind the copy is the same only if nothing is left there. -/
theorem overlay_flatten_iff (hpre : Full B pre) (hfit : post ≠ [] → off + b.length ≤ c.length) :
    (pre ++ (c.take off ++ b) :: post).flatten =
        overlay (pre ++ c :: post).flatten (B * pre.length + off) b ↔
      c.length ≤ off + b.length := by
  rw [overlay_flatten hpre hfit, List.flatten_append, List.flatten_append, List.flatten_cons,
    List.flatten_cons, List.append_cancel_left_eq, List.append_cancel_right_eq, overlay,
    List.self_eq_append_right, List.drop_eq_nil_iff]

/-- A copy behind full chunks is a new chunk. -/
theorem overlay_full (h : Full B cs) (b : List UInt8) :
    overlay cs.flatten (B * cs.length) b = (cs ++ [b]).flatten := by
  rw [← h.length_flatten, overlay, List.take_length, List.drop_of_length_le (by omega),
    List.append_nil, List.flatten_append, List.flatten_singleton]

/-- What lies behind a position of a chunk. -/
theorem drop_flatten (hpre : Full B pre) (hoff : off ≤ c.length) :
    (pre ++ c :: post).flatten.drop (B * pre.length + off) = c.drop off ++ post.flatten := by
  rw [List.flatten_append, List.flatten_cons, ← hpre.length_flatten, List.drop_length_add_append,
    List.drop_append_of_le_length hoff]

end AndixOs
