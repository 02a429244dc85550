/-
# The memory tags, one after the other

`init_vmm` calls `atag_get_next_mem_tag` with the start of the list, then with the tag it got, and so on
until it gets `NULL`; `atag_copy` takes the list into the heap.  A list here has tags of any kind and any
length: it starts with `ATAG_CORE` and ends with `ATAG_NONE`, and what the header of the last says is left
open.

A memory tag to start from is stepped over before the loop, which looks for `ATAG_NONE` behind each step
of its own.  Behind a memory tag that is the last one, the loop therefore begins on `ATAG_NONE` and goes on
from there.

* `iterates_iff`: when the calls visit the memory tags and then return `NULL`;
* `copyRight_iff`: when the copy has the same tags;
* `memTags_right_iff`: both.
-/
import AndixOs.Boot.Walk

namespace AndixOs.Boot.Walk

open AndixOs

/-! ## 1. Lists -/

/-- Tags stand behind one another from an address on, each with a header at least, up to another
address. -/
inductive TagsAt (m : Mem) : UInt32 → List UInt32 → UInt32 → Prop where
  | nil (e : UInt32) : TagsAt m e [] e
  | cons {a e : UInt32} {as : List UInt32} (size : 2 ≤ (sizeAt m a).toNat) (tag : tagAt m a ≠ atagNone)
      (room : a.toNat + 4 * (sizeAt m a).toNat < 4294967296) (rest : TagsAt m (nextAt m a) as e) :
      TagsAt m a (a :: as) e

/-- A list: a core tag, any others, and the terminator, all in the address space. -/
structure AtagList (m : Mem) where
  start : UInt32
  rest : List UInt32
  stop : UInt32
  listed : TagsAt m start (start :: rest) stop
  core : tagAt m start = atagCore
  ends : tagAt m stop = atagNone
  notNull : start ≠ 0
  fits : stop.toNat + 8 ≤ 4294967296

variable {m m' : Mem} {kmalloc : UInt32 → Option UInt32}

/-- The tags, at their addresses. -/
def AtagList.tags (l : AtagList m) : List UInt32 := l.start :: l.rest

/-- The memory tags, in the order of the list. -/
def AtagList.memTags (l : AtagList m) : List UInt32 := l.tags.filter fun a => tagAt m a = atagMem

/-- What the list takes, with its terminator. -/
def AtagList.bytes (l : AtagList m) : UInt32 := l.stop - l.start + 8

/-! ## 2. What is asked of the functions -/

/-- A call of `atag_get_next_mem_tag` returns. -/
def NextMemTag (m : Mem) (a : UInt32) (r : Option UInt32) : Prop :=
  ∃ fuel, atagGetNextMemTag m fuel a = some r

/-- Calls that begin at `a` and go on with what they return visit these tags, and then return `NULL`. -/
inductive Iterates (m : Mem) : UInt32 → List UInt32 → Prop where
  | stop {a : UInt32} (h : NextMemTag m a none) : Iterates m a []
  | next {a q : UInt32} {qs : List UInt32} (h : NextMemTag m a (some q)) (rest : Iterates m q qs) :
      Iterates m a (q :: qs)

/-- Bytes of the memory. -/
def bytesAt (m : Mem) (a n : Nat) : List UInt8 := (List.range n).map fun k => m (a + k)

/-- A tag as it stands in memory. -/
def tagBytes (m : Mem) (a : UInt32) : List UInt8 := bytesAt m a.toNat (4 * (sizeAt m a).toNat)

/-- The sequence of tags that a reader finds, with the header of the terminator. -/
def ReadsTags (m : Mem) (a : UInt32) (seq : List (List UInt8)) : Prop :=
  ∃ tags stop, TagsAt m a tags stop ∧ tagAt m stop = atagNone ∧
    seq = tags.map (tagBytes m) ++ [bytesAt m stop.toNat 8]

/-- `atag_copy` returns a list with the same tags. -/
def CopyRight (l : AtagList m) (kmalloc : UInt32 → Option UInt32) : Prop :=
  ∃ fuel m' newTag, atagCopy kmalloc m fuel l.start = some (some (m', newTag)) ∧
    ReadsTags m' newTag (l.tags.map (tagBytes m) ++ [bytesAt m l.stop.toNat 8])

/-- The last tag is a memory tag. -/
def AtagList.EndsWithMem (l : AtagList m) : Prop :=
  tagAt m ((l.start :: l.rest).getLast (List.cons_ne_nil _ _)) = atagMem

/-- Whoever goes on behind the terminator, by its `hdr.size`, comes to another `ATAG_NONE` before a memory
tag. -/
def NoMemBehind (m : Mem) (stop : UInt32) : Prop :=
  ∃ n, tagAt m ((nextAt m)^[n + 1] stop) = atagNone ∧ ∀ k ≤ n, tagAt m ((nextAt m)^[k] stop) ≠ atagMem

/-- `kmalloc` gives memory that is in the address space and not the list. -/
def GivesFresh (l : AtagList m) (kmalloc : UInt32 → Option UInt32) : Prop :=
  ∀ p, kmalloc l.bytes = some p → p.toNat + l.bytes.toNat ≤ 4294967296 ∧
    (p.toNat + l.bytes.toNat ≤ l.start.toNat ∨ l.start.toNat + l.bytes.toNat ≤ p.toNat)

/-! ## 3. The search -/

variable {a b e want : UInt32} {as qs : List UInt32} {r : Option UInt32}

theorem searchRound_found (h : tagAt m a = want) : searchRound m want a = .inr (some a) := if_pos h

theorem searchRound_last (h : tagAt m a ≠ want) (hnone : tagAt m (nextAt m a) = atagNone) :
    searchRound m want a = .inr none := by
  rw [searchRound, if_neg h]
  exact if_neg (not_not.mpr hnone)

theorem searchRound_next (h : tagAt m a ≠ want) (hnone : tagAt m (nextAt m a) ≠ atagNone) :
    searchRound m want a = .inl (nextAt m a) := by
  rw [searchRound, if_neg h]
  exact if_pos hnone

/-- **When a search ends without a tag**: it comes to `ATAG_NONE` first. -/
theorem search_none_iff : Ends (searchRound m want) a none ↔
    ∃ n, tagAt m ((nextAt m)^[n + 1] a) = atagNone ∧ ∀ k ≤ n, tagAt m ((nextAt m)^[k] a) ≠ want := by
  constructor
  · rintro ⟨fuel, hrun⟩
    induction fuel generalizing a with
    | zero => cases hrun
    | succ fuel ih =>
      rw [runLoop] at hrun
      by_cases hwant : tagAt m a = want
      · rw [searchRound_found hwant] at hrun
        cases hrun
      by_cases hnone : tagAt m (nextAt m a) = atagNone
      · exact ⟨0, hnone, fun k hk => by rwa [Nat.le_zero.mp hk]⟩
      rw [searchRound_next hwant hnone] at hrun
      obtain ⟨n, hend, hbefore⟩ := ih hrun
      refine ⟨n + 1, hend, fun k hk => ?_⟩
      cases k with
      | zero => exact hwant
      | succ k => exact hbefore k (Nat.le_of_succ_le_succ hk)
  · rintro ⟨n, hend, hbefore⟩
    induction n generalizing a with
    | zero => exact ends_of_inr (searchRound_last (hbefore 0 (Nat.le_refl 0)) hend)
    | succ n ih =>
      have hwant := hbefore 0 (Nat.zero_le _)
      by_cases hnone : tagAt m (nextAt m a) = atagNone
      · exact ends_of_inr (searchRound_last hwant hnone)
      · exact ends_of_inl (searchRound_next hwant hnone)
          (ih hend fun k hk => hbefore (k + 1) (Nat.succ_le_succ hk))

/-- In a list a search ends with the first tag that is looked for. -/
theorem TagsAt.search (h : TagsAt m a (a :: as) e) (hend : tagAt m e = atagNone) (want : UInt32) :
    Ends (searchRound m want) a ((a :: as).find? fun b => tagAt m b = want) := by
  induction as generalizing a with
  | nil =>
    cases h with
    | cons size tag room rest =>
      cases rest
      by_cases hwant : tagAt m a = want
      · rw [List.find?_cons_of_pos (by simpa using hwant)]
        exact ends_of_inr (searchRound_found hwant)
      · rw [List.find?_cons_of_neg (by simpa using hwant)]
        exact ends_of_inr (searchRound_last hwant hend)
  | cons b as ih =>
    cases h with
    | cons size tag room rest =>
      by_cases hwant : tagAt m a = want
      · rw [List.find?_cons_of_pos (by simpa using hwant)]
        exact ends_of_inr (searchRound_found hwant)
      · rw [List.find?_cons_of_neg (by simpa using hwant)]
        cases rest with
        | cons size' tag' room' rest' =>
          exact ends_of_inl (searchRound_next hwant tag') (ih (.cons size' tag' room' rest'))

/-! ## 4. The calls -/

theorem nextMemTag_iff : NextMemTag m a r ↔ Ends (searchRound m atagMem) (skipMemTag m a) r := Iff.rfl

theorem iterates_nil_iff : Iterates m a [] ↔ NextMemTag m a none :=
  ⟨fun h => by cases h; assumption, .stop⟩

theorem iterates_cons_iff : Iterates m a (b :: qs) ↔ NextMemTag m a (some b) ∧ Iterates m b qs :=
  ⟨fun h => by cases h; exact ⟨‹_›, ‹_›⟩, fun h => .next h.1 h.2⟩

/-- Behind a tag the search begins with the next one. -/
theorem nextMemTag_of_next (hnone : tagAt m (nextAt m a) ≠ atagNone) :
    NextMemTag m a r ↔ Ends (searchRound m atagMem) (nextAt m a) r := by
  rw [nextMemTag_iff]
  by_cases hmem : tagAt m a = atagMem
  · rw [skipMemTag, if_pos hmem]
  · rw [skipMemTag, if_neg hmem]
    exact ends_inl_iff (searchRound_next hmem hnone)

/-- **What the calls visit behind a tag**: the memory tags there, if the last tag of all is none, or if
nothing is behind the terminator that looks like one. -/
theorem TagsAt.iterates_iff (h : TagsAt m a (a :: as) e) (hend : tagAt m e = atagNone) :
    Iterates m a (as.filter fun b => tagAt m b = atagMem) ↔
      tagAt m ((a :: as).getLast (List.cons_ne_nil _ _)) ≠ atagMem ∨ NoMemBehind m e := by
  induction as generalizing a with
  | nil =>
    rw [List.filter_nil, iterates_nil_iff, nextMemTag_iff, List.getLast_singleton]
    cases h with
    | cons size tag room rest =>
      cases rest
      by_cases hmem : tagAt m a = atagMem
      · rw [skipMemTag, if_pos hmem, search_none_iff]
        exact ⟨Or.inr, fun hor => hor.resolve_left fun hne => hne hmem⟩
      · rw [skipMemTag, if_neg hmem]
        exact iff_of_true (ends_of_inr (searchRound_last hmem hend)) (Or.inl hmem)
  | cons b as ih =>
    cases h with
    | cons size tag room rest =>
      cases rest with
      | cons size' tag' room' rest' =>
        have hrest : TagsAt m (nextAt m a) (nextAt m a :: as) e := .cons size' tag' room' rest'
        rw [List.getLast_cons (List.cons_ne_nil _ _), ← ih hrest]
        by_cases hmem : tagAt m (nextAt m a) = atagMem
        · rw [List.filter_cons_of_pos (by simpa using hmem), iterates_cons_iff, nextMemTag_of_next tag']
          exact and_iff_right (ends_of_inr (searchRound_found hmem))
        · -- the next tag is passed over, so that both begin the same search
          rw [List.filter_cons_of_neg (by simpa using hmem)]
          have hsame : ∀ r, NextMemTag m a r ↔ NextMemTag m (nextAt m a) r := by
            intro r
            rw [nextMemTag_of_next tag', nextMemTag_iff, skipMemTag, if_neg hmem]
          cases as.filter fun b => tagAt m b = atagMem with
          | nil => rw [iterates_nil_iff, iterates_nil_iff, hsame]
          | cons q qs => rw [iterates_cons_iff, iterates_cons_iff, hsame]

/-- **When the calls visit the memory tags of a list**, each once and in order, and then return `NULL`. -/
theorem iterates_iff (l : AtagList m) :
    Iterates m l.start l.memTags ↔ ¬l.EndsWithMem ∨ NoMemBehind m l.stop := by
  have hcore : ¬tagAt m l.start = atagMem := by
    rw [l.core]
    decide
  rw [AtagList.memTags, AtagList.tags, List.filter_cons_of_neg (by simpa using hcore)]
  exact l.listed.iterates_iff l.ends

/-! ## 5. The copy -/

theorem nextAt_toNat (room : a.toNat + 4 * (sizeAt m a).toNat < 4294967296) :
    (nextAt m a).toNat = a.toNat + 4 * (sizeAt m a).toNat := by
  have hfour : (4 : UInt32).toNat = 4 := rfl
  rw [nextAt, UInt32.toNat_add, UInt32.toNat_mul, hfour]
  omega

theorem TagsAt.le (h : TagsAt m a as e) : a.toNat ≤ e.toNat := by
  induction h with
  | nil => exact Nat.le_refl _
  | cons size tag room rest ih =>
    rw [nextAt_toNat room] at ih
    omega

/-- `size` counts up to the terminator. -/
theorem TagsAt.copy (h : TagsAt m a (a :: as) e) (hend : tagAt m e = atagNone) (size : UInt32) :
    Ends (copyRound m) (size, a) (size + (e - a)) := by
  induction as generalizing a size with
  | nil =>
    cases h with
    | cons hsize tag room rest =>
      cases rest
      have hsum : size + (nextAt m a - a) = size + sizeAt m a * 4 := by
        rw [nextAt]
        grind
      rw [hsum]
      exact ends_of_inr (if_neg (not_not.mpr hend))
  | cons b as ih =>
    cases h with
    | cons hsize tag room rest =>
      cases rest with
      | cons hsize' tag' room' rest' =>
        have hsum : size + (e - a) = size + sizeAt m a * 4 + (e - nextAt m a) := by
          rw [nextAt]
          grind
        have hround : copyRound m (size, a) = .inl (size + sizeAt m a * 4, nextAt m a) := if_pos tag'
        rw [hsum]
        exact ends_of_inl hround (ih (.cons hsize' tag' room' rest') _)

theorem memcpy_of_lt : ∀ {n dst src x : Nat} {m : Mem}, x < dst → memcpy m dst src n x = m x
  | 0, _, _, _, _, _ => rfl
  | n + 1, dst, src, x, m, h => by
    rw [memcpy, memcpy_of_lt (Nat.lt_succ_of_lt h), store8_of_ne (Nat.ne_of_lt h)]

/-- What `memcpy` writes, if the two areas have no byte in common. -/
theorem memcpy_add : ∀ {n dst src k : Nat} {m : Mem}, dst + n ≤ src ∨ src + n ≤ dst → k < n →
    memcpy m dst src n (dst + k) = m (src + k)
  | n + 1, dst, src, 0, m, _, _ => by
    rw [memcpy]
    exact (memcpy_of_lt (Nat.lt_succ_self dst)).trans (if_pos rfl)
  | n + 1, dst, src, k + 1, m, hapart, hk => by
    have hdst : dst + (k + 1) = dst + 1 + k := by omega
    have hsrc : src + (k + 1) = src + 1 + k := by omega
    have hne : src + 1 + k ≠ dst := by omega
    rw [memcpy, hdst, memcpy_add (by omega) (Nat.lt_of_succ_lt_succ hk), store8_of_ne hne, hsrc]

/-- The bytes from one address on stand also at another. -/
structure Copied (m m' : Mem) (start newTag : UInt32) (n : Nat) : Prop where
  same : ∀ k < n, m' (newTag.toNat + k) = m (start.toNat + k)
  room : newTag.toNat + n ≤ 4294967296

/-- Where an address has gone. -/
def moved (start newTag x : UInt32) : UInt32 := x - start + newTag

variable {start newTag x : UInt32} {n : Nat}

theorem moved_toNat (h : Copied m m' start newTag n) (hlo : start.toNat ≤ x.toNat)
    (hhi : x.toNat < start.toNat + n) :
    (moved start newTag x).toNat = newTag.toNat + (x.toNat - start.toNat) := by
  have hroom := h.room
  have hsub : (x - start).toNat = x.toNat - start.toNat := UInt32.toNat_sub_of_le _ _ hlo
  rw [moved, UInt32.toNat_add, hsub]
  omega

/-- A word of what was copied. -/
theorem Copied.word (h : Copied m m' start newTag n) {k : Nat} (hk : k + 4 ≤ n) :
    AndixOs.word m' (newTag.toNat + k) = AndixOs.word m (start.toNat + k) := by
  have hbyte : ∀ j < 4, m' (newTag.toNat + k + j) = m (start.toNat + k + j) := by
    intro j hj
    rw [Nat.add_assoc, Nat.add_assoc]
    exact h.same _ (by omega)
  have hload : load32 m' (newTag.toNat + k) = load32 m (start.toNat + k) := by
    have hzero := hbyte 0 (by decide)
    rw [Nat.add_zero, Nat.add_zero] at hzero
    rw [load32, load32, hzero, hbyte 1 (by decide), hbyte 2 (by decide), hbyte 3 (by decide)]
  exact congrArg UInt32.ofNat hload

/-- A header that was copied. -/
theorem Copied.header (h : Copied m m' start newTag n) (hlo : start.toNat ≤ x.toNat)
    (hhi : x.toNat + 8 ≤ start.toNat + n) (hfit : x.toNat + 8 ≤ 4294967296) :
    sizeAt m' (moved start newTag x) = sizeAt m x ∧ tagAt m' (moved start newTag x) = tagAt m x := by
  have hroom := h.room
  have hmoved := moved_toNat h hlo (by omega)
  have hx : x.toNat = start.toNat + (x.toNat - start.toNat) := by omega
  have hfour : (4 : UInt32).toNat = 4 := rfl
  have htag : (x + 4).toNat = start.toNat + (x.toNat - start.toNat + 4) := by
    rw [UInt32.toNat_add, hfour]
    omega
  have htag' : (moved start newTag x + 4).toNat = newTag.toNat + (x.toNat - start.toNat + 4) := by
    rw [UInt32.toNat_add, hmoved, hfour]
    omega
  constructor
  · rw [sizeAt, sizeAt, hmoved, hx, h.word (by omega)]
    congr 3
    omega
  · rw [tagAt, tagAt, htag, htag', h.word (by omega)]

/-- Bytes that were copied. -/
theorem Copied.bytesAt (h : Copied m m' start newTag n) (hlo : start.toNat ≤ x.toNat) {k : Nat}
    (hk : 0 < k) (hhi : x.toNat + k ≤ start.toNat + n) :
    Walk.bytesAt m' (moved start newTag x).toNat k = Walk.bytesAt m x.toNat k := by
  rw [Walk.bytesAt, Walk.bytesAt, moved_toNat h hlo (by omega)]
  refine List.map_congr_left fun j hj => ?_
  have hj := List.mem_range.mp hj
  have hsame := h.same (x.toNat - start.toNat + j) (by omega)
  rw [← Nat.add_assoc] at hsame
  rw [hsame]
  congr 1
  omega

/-- **A list that was copied**: the same tags, at their new addresses. -/
theorem TagsAt.copied (h : TagsAt m a as e) (hcopied : Copied m m' start newTag n)
    (hlo : start.toNat ≤ a.toNat) (hhi : e.toNat + 8 ≤ start.toNat + n)
    (hfit : e.toNat + 8 ≤ 4294967296) :
    TagsAt m' (moved start newTag a) (as.map (moved start newTag)) (moved start newTag e) ∧
      (as.map (moved start newTag)).map (tagBytes m') = as.map (tagBytes m) := by
  induction h with
  | nil e => exact ⟨.nil _, rfl⟩
  | @cons a e as size tag room rest ih =>
    have hnext := nextAt_toNat room
    have hle := rest.le
    have hroom := hcopied.room
    obtain ⟨hsize, htag⟩ := hcopied.header (x := a) hlo (by omega) (by omega)
    have hmoved := moved_toNat (x := a) hcopied hlo (by omega)
    have hstep : nextAt m' (moved start newTag a) = moved start newTag (nextAt m a) := by
      rw [nextAt, hsize, moved, moved, nextAt]
      grind
    obtain ⟨hrest, hbytes⟩ := ih (by omega) hhi hfit
    constructor
    · refine .cons (hsize ▸ size) (htag ▸ tag) ?_ (hstep ▸ hrest)
      rw [hsize, hmoved]
      omega
    · have hbytesAt := hcopied.bytesAt (x := a) hlo (k := 4 * (sizeAt m a).toNat) (by omega) (by omega)
      rw [List.map_cons, List.map_cons, List.map_cons, hbytes, tagBytes, tagBytes, hsize, hbytesAt]

theorem AtagList.bytes_toNat (l : AtagList m) :
    l.bytes.toNat = l.stop.toNat - l.start.toNat + 8 ∧ l.start.toNat ≤ l.stop.toNat := by
  have hle := l.listed.le
  have hfits := l.fits
  have hpos : 0 < l.start.toNat := UInt32.pos_iff_ne_zero.mpr l.notNull
  have height : (8 : UInt32).toNat = 8 := rfl
  refine ⟨?_, hle⟩
  rw [AtagList.bytes, UInt32.toNat_add, UInt32.toNat_sub_of_le _ _ hle, height]
  omega

/-- `atag_copy` of a list: its loop ends, and `kmalloc` is asked for the bytes of the list. -/
theorem AtagList.atagCopy_iff (l : AtagList m) (kmalloc : UInt32 → Option UInt32)
    {r : Option (Mem × UInt32)} :
    (∃ fuel, atagCopy kmalloc m fuel l.start = some r) ↔
      r = (kmalloc l.bytes).map fun newTag =>
        (memcpy m newTag.toNat l.start.toNat l.bytes.toNat, newTag) := by
  have hsize := l.listed.copy l.ends 0
  rw [UInt32.zero_add] at hsize
  constructor
  · rintro ⟨fuel, hrun⟩
    obtain ⟨size, hloop, rfl⟩ := Option.map_eq_some_iff.mp hrun
    rw [← hsize.unique ⟨fuel, hloop⟩]
    rfl
  · rintro rfl
    obtain ⟨fuel, hloop⟩ := hsize
    refine ⟨fuel, ?_⟩
    rw [atagCopy, hloop]
    rfl

/-- **When the copy has the same tags**: there is memory for it. -/
theorem copyRight_iff (l : AtagList m) (hfresh : GivesFresh l kmalloc) :
    CopyRight l kmalloc ↔ kmalloc l.bytes ≠ none := by
  constructor
  · rintro ⟨fuel, m', newTag, hrun, -⟩ hnull
    have hr := (l.atagCopy_iff kmalloc).mp ⟨fuel, hrun⟩
    rw [hnull] at hr
    exact absurd hr nofun
  · intro hsome
    obtain ⟨newTag, hnew⟩ := Option.ne_none_iff_exists'.mp hsome
    obtain ⟨hroom, hapart⟩ := hfresh newTag hnew
    obtain ⟨hbytes, hle⟩ := l.bytes_toNat
    have hrun := (l.atagCopy_iff kmalloc).mpr rfl
    rw [hnew] at hrun
    obtain ⟨fuel, hrun⟩ := hrun
    have hcopied : Copied m (memcpy m newTag.toNat l.start.toNat l.bytes.toNat) l.start newTag
        l.bytes.toNat := ⟨fun k hk => memcpy_add hapart hk, hroom⟩
    have hhi : l.stop.toNat + 8 ≤ l.start.toNat + l.bytes.toNat := by omega
    obtain ⟨htags, hsame⟩ := l.listed.copied hcopied (Nat.le_refl _) hhi l.fits
    have hstart : moved l.start newTag l.start = newTag := by
      rw [moved, UInt32.sub_self, UInt32.zero_add]
    have hstop := (hcopied.header hle hhi l.fits).2
    refine ⟨fuel, _, newTag, hrun, _, moved l.start newTag l.stop, hstart ▸ htags,
      hstop.trans l.ends, ?_⟩
    rw [hsame, hcopied.bytesAt hle (by decide) hhi]
    rfl

/-- **When the memory tags are visited and the list is copied**: the last tag is no memory tag, or nothing
behind the terminator looks like one; and there is memory for the copy. -/
theorem memTags_right_iff (l : AtagList m) (hfresh : GivesFresh l kmalloc) :
    Iterates m l.start l.memTags ∧ CopyRight l kmalloc ↔
      (¬l.EndsWithMem ∨ NoMemBehind m l.stop) ∧ kmalloc l.bytes ≠ none :=
  and_congr (iterates_iff l) (copyRight_iff l hfresh)

/-! ## 6. The list that `init_vmm` goes over -/

/-- `u.mem` of a tag. -/
def memTagAt (m : Mem) (a : UInt32) : Mm.MemTag :=
  ⟨(word m (a + 12).toNat).toNat, (word m (a + 8).toNat).toNat⟩

/-- A tag as `init_vmm` sees it. -/
def tagOf (m : Mem) (a : UInt32) : Mm.Atag :=
  if tagAt m a = atagMem then .mem (memTagAt m a)
  else if tagAt m a = atagCore then .core
  else .other (tagAt m a).toNat

theorem memTags_map (m : Mem) (as : List UInt32) :
    Mm.memTags (as.map (tagOf m)) = (as.filter fun a => tagAt m a = atagMem).map (memTagAt m) := by
  induction as with
  | nil => rfl
  | cons a as ih =>
    by_cases hmem : tagAt m a = atagMem
    · have htag : tagOf m a = .mem (memTagAt m a) := if_pos hmem
      rw [List.map_cons, htag, List.filter_cons_of_pos (by simpa using hmem), List.map_cons, ← ih]
      rfl
    · have htag : tagOf m a = .core ∨ ∃ n, tagOf m a = .other n := by
        rw [tagOf, if_neg hmem]
        split
        · exact Or.inl rfl
        · exact Or.inr ⟨_, rfl⟩
      rw [List.map_cons, List.filter_cons_of_neg (by simpa using hmem), ← ih]
      rcases htag with htag | ⟨n, htag⟩ <;> rw [htag] <;> rfl

/-- The calls visit one list only. -/
theorem Iterates.unique {qs' : List UInt32} (h : Iterates m a qs) (h' : Iterates m a qs') :
    qs = qs' := by
  induction h generalizing qs' with
  | stop hnone =>
    cases h' with
    | stop => rfl
    | next hnext => exact absurd (Ends.unique hnone hnext) nofun
  | next hnext rest ih =>
    cases h' with
    | stop hnone => exact absurd (Ends.unique hnext hnone) nofun
    | next hnext' rest' =>
      obtain rfl := Option.some.inj (Ends.unique hnext hnext')
      rw [ih rest']

/-- **What the calls visit is what `init_vmm` goes over**, under the same condition. -/
theorem Iterates.upcoming {l : AtagList m} (h : Iterates m l.start qs)
    (hlast : ¬l.EndsWithMem ∨ NoMemBehind m l.stop) :
    Mm.upcoming (l.tags.map (tagOf m)) = qs.map (memTagAt m) := by
  obtain rfl := h.unique ((iterates_iff l).mpr hlast)
  have hcore : tagOf m l.start = .core := by
    rw [tagOf, l.core, if_neg (by decide), if_pos rfl]
  rw [AtagList.memTags, ← memTags_map, AtagList.tags, List.map_cons, hcore]
  rfl

/-! ## 7. A memory tag in front of the terminator -/

/-- A core tag, a memory tag, and a terminator that counts its own header, with more behind it. -/
def countedEnd : Mem :=
  putWords (fun _ => 0) 64 [2, atagCore, 4, atagMem, 4096, 0, 2, atagNone, 4, atagMem, 4096, 0]

/-- The list from 64 to 88. -/
def countedList : AtagList countedEnd where
  start := 64
  rest := [72]
  stop := 88
  listed := by
    have hlast : nextAt countedEnd 72 = 88 := by decide +kernel
    have hnext : nextAt countedEnd 64 = 72 := by decide +kernel
    refine .cons (by decide +kernel) (by decide +kernel) (by decide +kernel) ?_
    rw [hnext]
    refine .cons (by decide +kernel) (by decide +kernel) (by decide +kernel) ?_
    rw [hlast]
    exact .nil 88
  core := by decide +kernel
  ends := by decide +kernel
  notNull := by decide
  fits := by decide

theorem memTags_right_countedList :
    Iterates countedEnd 64 countedList.memTags ∧ CopyRight countedList (fun _ => some 4096) ↔
      (¬countedList.EndsWithMem ∨ NoMemBehind countedEnd 88) ∧ some (4096 : UInt32) ≠ none := by
  have hfresh : GivesFresh countedList fun _ => some 4096 := by
    intro p hp
    obtain rfl := Option.some.inj hp
    decide
  exact memTags_right_iff countedList hfresh

/-- **Behind the terminator**: the call that begins at the last tag returns what stands there; and a copy
that gets no memory is written to `NULL`. -/
theorem next_behind_terminator :
    countedList.memTags = [72] ∧ NextMemTag countedEnd 72 (some 96) ∧
      ¬Iterates countedEnd 64 countedList.memTags ∧
      (∃ fuel, atagCopy (fun _ => none) countedEnd fuel 64 = some none) ∧
      ¬CopyRight countedList fun _ => none := by
  have hmem : countedList.memTags = [72] := by decide +kernel
  have hnext : NextMemTag countedEnd 72 (some 96) := ⟨2, by decide +kernel⟩
  refine ⟨hmem, hnext, fun h => ?_, (countedList.atagCopy_iff _).mpr rfl, ?_⟩
  · rw [hmem, iterates_cons_iff, iterates_nil_iff] at h
    exact absurd (Ends.unique hnext h.2) nofun
  · have hfresh : GivesFresh countedList fun _ => none := fun _ h => absurd h nofun
    rw [copyRight_iff countedList hfresh]
    exact fun h => h rfl

end AndixOs.Boot.Walk
