/-
# Boot parameters

The boot loader leaves a list of tags in memory, and `atags.c` writes another one for the kernel of the
normal world.  A tag says in its header how many words it has, and the next one stands right behind it;
`ATAG_NONE` ends the list.

The writer finds the place of the next tag in the header that it has just written, and a reader finds it
there again.  What the two could disagree about is the command line: `atag_setup_cmdline` rounds its
length to words and fills up with zeros, up to three bytes past its own tag.

`atagGenerateNonsecure_reads` says what a reader of the new list finds, for every list of the boot
loader, every list of memory areas and every initial RAM disk.
-/
import AndixOs.Lib.CString
import AndixOs.Mm.Init

namespace AndixOs.Boot

open AndixOs
open AndixOs.Mm (PhysMemArea AreaType)

/-! ## 1. Tags -/

def atagNone : UInt32 := 0x00000000
def atagCore : UInt32 := 0x54410001
def atagMem : UInt32 := 0x54410002
def atagInitrd2 : UInt32 := 0x54420005
def atagRevision : UInt32 := 0x54410007
def atagCmdline : UInt32 := 0x54410009

/-- `struct atag_core`. -/
structure AtagCore where
  flags : UInt32
  pagesize : UInt32
  rootdev : UInt32
  deriving DecidableEq

/-- `struct atag`, with the kinds that `atags.c` reads or writes.  The core tag may have no payload. -/
inductive Atag where
  | core (u : Option AtagCore)
  | mem (start size : UInt32)
  | initrd2 (start size : UInt32)
  | revision (rev : UInt32)
  | cmdline (line : List UInt8)
  | other (tag : UInt32)
  deriving DecidableEq

/-- A tag from its number, the words of its payload and the string that the payload starts with.  A
payload of the wrong length, or a command line without an end, is no tag. -/
def parseTag (tag : UInt32) (payload : List UInt32) (line : Option (List UInt8)) : Option Atag :=
  if tag = atagNone then none
  else if tag = atagCore then
    match payload with
    | [] => some (.core none)
    | [flags, pagesize, rootdev] => some (.core (some ⟨flags, pagesize, rootdev⟩))
    | _ => none
  else if tag = atagMem then
    match payload with
    | [size, start] => some (.mem start size)
    | _ => none
  else if tag = atagInitrd2 then
    match payload with
    | [start, size] => some (.initrd2 start size)
    | _ => none
  else if tag = atagRevision then
    match payload with
    | [rev] => some (.revision rev)
    | _ => none
  else if tag = atagCmdline then line.map .cmdline
  else some (.other tag)

/-- `hdr.size`: the words of a tag with its header. -/
def hdrSize (m : Mem) (a : Nat) : UInt32 := word m a

/-- `hdr.tag`. -/
def hdrTag (m : Mem) (a : Nat) : UInt32 := word m (a + 4)

/-- `tag_next`. -/
def tagNext (m : Mem) (a : Nat) : Nat := a + 4 * (hdrSize m a).toNat

/-- The tag at an address. -/
def readTag (m : Mem) (a : Nat) : Option Atag :=
  if (hdrSize m a).toNat < 2 then none
  else
    let payload := (hdrSize m a).toNat - 2
    parseTag (hdrTag m a) (words m (a + 8) payload) (strAt m (4 * payload) (a + 8))

/-- The list at an address, read by following `hdr.size` up to `ATAG_NONE`. -/
def readTags (m : Mem) : Nat → Nat → Option (List Atag)
  | 0, _ => none
  | fuel + 1, a =>
    if hdrTag m a = atagNone then some []
    else
      match readTag m a with
      | none => none
      | some t => (readTags m fuel (tagNext m a)).map (t :: ·)

/-! ## 2. Lists in memory -/

/-- The tags `ts` stand in memory from `a` on, and the last one ends at `e`. -/
def ListAt (m : Mem) : Nat → List Atag → Nat → Prop
  | a, [], e => a = e
  | a, t :: ts, e => readTag m a = some t ∧ ListAt m (tagNext m a) ts e

variable {m m' : Mem} {a e p : Nat} {t : Atag} {ts : List Atag} {tag : UInt32}

/-- A tag has at least its header. -/
theorem readTag_size (h : readTag m a = some t) : 2 ≤ (hdrSize m a).toNat := by
  by_contra hlt
  rw [readTag, if_pos (Nat.lt_of_not_le hlt)] at h
  exact absurd h nofun

theorem readTag_next (h : readTag m a = some t) : a + 8 ≤ tagNext m a := by
  have hsize := readTag_size h
  rw [tagNext]
  omega

/-- The tag, with the words it has behind its header. -/
theorem readTag_eq {n : Nat} (h : (hdrSize m a).toNat = n + 2) :
    readTag m a = parseTag (hdrTag m a) (words m (a + 8) n) (strAt m (4 * n) (a + 8)) := by
  rw [readTag, h]
  exact if_neg (Nat.not_lt.mpr (Nat.le_add_left 2 n))

theorem readTag_ne_none (h : readTag m a = some t) : hdrTag m a ≠ atagNone := by
  intro htag
  have hsize := Nat.sub_add_cancel (readTag_size h)
  rw [readTag_eq hsize.symm, htag] at h
  exact absurd h nofun

/-- A reader of a tag uses the bytes of the tag only. -/
theorem readTag_congr (h : readTag m a = some t)
    (hsame : ∀ x, a ≤ x → x < tagNext m a → m' x = m x) :
    readTag m' a = some t ∧ tagNext m' a = tagNext m a := by
  have hsize := readTag_size h
  rw [tagNext] at hsame
  obtain ⟨n, hn⟩ := Nat.exists_eq_add_of_le' hsize
  have hs : hdrSize m' a = hdrSize m a := word_congr fun x hlo hhi => hsame x hlo (by omega)
  have ht : hdrTag m' a = hdrTag m a := word_congr fun x hlo hhi => hsame x (by omega) (by omega)
  have hw : words m' (a + 8) n = words m (a + 8) n :=
    words_congr fun x hlo hhi => hsame x (by omega) (by omega)
  have hl : strAt m' (4 * n) (a + 8) = strAt m (4 * n) (a + 8) :=
    strAt_congr fun x hlo hhi => hsame x (by omega) (by omega)
  rw [readTag_eq hn] at h
  rw [readTag_eq (hs ▸ hn), tagNext, tagNext, hs, ht, hw, hl]
  exact ⟨h, rfl⟩

theorem ListAt.le : ∀ {ts : List Atag} {a : Nat}, ListAt m a ts e → a ≤ e
  | [], _, h => Nat.le_of_eq h
  | _ :: _, _, ⟨hread, hrest⟩ => (Nat.le_of_add_right_le (readTag_next hread)).trans hrest.le

/-- A reader of a list uses the bytes of its tags only. -/
theorem ListAt.congr : ∀ {ts : List Atag} {a : Nat}, ListAt m a ts e →
    (∀ x, x < e → m' x = m x) → ListAt m' a ts e
  | [], _, h, _ => h
  | _ :: _, _, ⟨hread, hrest⟩, hsame => by
    obtain ⟨hread', hnext⟩ := readTag_congr hread fun x _ hhi => hsame x (hhi.trans_le hrest.le)
    exact ⟨hread', hnext ▸ hrest.congr hsame⟩

theorem ListAt.append : ∀ {ts : List Atag} {a : Nat}, ListAt m a ts p → readTag m p = some t →
    ListAt m a (ts ++ [t]) (tagNext m p)
  | [], _, h, hread => by
    obtain rfl : _ = p := h
    exact ⟨hread, rfl⟩
  | _ :: _, _, ⟨hfirst, hrest⟩, hread => ⟨hfirst, hrest.append hread⟩

/-- What stands in memory is what is read. -/
theorem ListAt.read : ∀ {ts : List Atag} {a fuel : Nat}, ListAt m a ts e →
    hdrTag m e = atagNone → ts.length < fuel → readTags m fuel a = some ts
  | [], a, fuel + 1, h, hend, _ => by
    obtain rfl : a = e := h
    rw [readTags, if_pos hend]
  | t :: ts, a, fuel + 1, ⟨hread, hrest⟩, hend, hfuel => by
    rw [readTags, if_neg (readTag_ne_none hread), hread]
    simp only [hrest.read hend (Nat.lt_of_succ_lt_succ hfuel), Option.map_some]

/-! ## 3. Looking for a tag -/

/-- Headers that a list in the address space has at most. -/
def listFuel : Nat := 536870912

/-- The loop shared by `atag_get_cmdline` and `atag_get_revision_tag`: the first tag with the number
`want`.  The outer `none` stands for a list without an end. -/
def atagFind (m : Mem) (want : UInt32) : Nat → Nat → Option (Option Nat)
  | 0, _ => none
  | fuel + 1, a =>
    if hdrTag m a = want then some (some a)
    else
      let next := a + (hdrSize m a * 4).toNat
      if hdrTag m next = atagNone then some none else atagFind m want fuel next

/-- `atag_get_cmdline`: the address of the command line. -/
def atagGetCmdline (m : Mem) (startTag : Nat) : Option (Option Nat) :=
  (atagFind m atagCmdline listFuel startTag).map (Option.map (· + 8))

/-- `atag_get_revision_tag`. -/
def atagGetRevisionTag (m : Mem) (startTag : Nat) : Option (Option Nat) :=
  atagFind m atagRevision listFuel startTag

/-- `atag_get_guest_cmdline`: the command line, in memory of its own; the outer `none` stands for
`kpanic`.  `kmalloc` says whether so many bytes are to be had. -/
def atagGetGuestCmdline (kmalloc : Nat → Bool) (m : Mem) (startTag : Nat) :
    Option (Option (List UInt8)) :=
  match atagGetCmdline m startTag with
  | none => none
  | some none => some none
  | some (some cmdline) =>
    match strAt m 4294967296 cmdline with
    | none => none
    | some line => if kmalloc (line.length + 1) then some (some line) else none

/-! ## 4. The writer -/

/-- A string of the kernel: no object has 2³¹ bytes. -/
structure CStr where
  chars : List UInt8
  noNul : 0 ∉ chars
  fits : chars.length + 1 < 2147483648

/-- The memory, and `params`. -/
structure AtagWriter where
  mem : Mem
  params : Nat

/-- What the setup functions share: a header, the payload in the order of its fields, and `params` moved
to the next tag. -/
def AtagWriter.setup (w : AtagWriter) (tag size : UInt32) (payload : List UInt32) : AtagWriter :=
  let m := putWord w.mem (w.params + 4) tag
  let m := putWord m w.params size
  let m := putWords m (w.params + 8) payload
  ⟨m, tagNext m w.params⟩

/-- `atag_setup_core`. -/
def atagSetupCore (m : Mem) (address : Nat) : AtagWriter :=
  (AtagWriter.mk m address).setup atagCore 5 [1, 0, 3]

/-- `atag_setup_mem`. -/
def atagSetupMem (w : AtagWriter) (start len : UInt32) : AtagWriter :=
  w.setup atagMem 4 [len, start]

/-- `atag_setup_revision`, from the list at `startTag` in `boot`. -/
def atagSetupRevision (boot : Mem) (startTag : Nat) (w : AtagWriter) : Option AtagWriter :=
  match atagGetRevisionTag boot startTag with
  | none => none
  | some none => some w
  | some (some tag) => some (w.setup (hdrTag boot tag) (hdrSize boot tag) [word boot (tag + 8)])

/-- `atag_setup_initrd`. -/
def atagSetupInitrd (w : AtagWriter) (start size : UInt32) : AtagWriter :=
  w.setup atagInitrd2 4 [start, size]

/-- `atag_setup_cmdline`: no tag for an empty line. -/
def atagSetupCmdline (w : AtagWriter) (line : List UInt8) : AtagWriter :=
  let linelen := UInt32.ofNat line.length
  if linelen = 0 then w
  else
    let m := putWord w.mem (w.params + 4) atagCmdline
    let m := putWord m w.params ((8 + linelen + 1 + 4) >>> 2)
    let m := memset m (w.params + 8) 0 (linelen + 1 + 4).toNat
    let m := strncpy m (w.params + 8) line (linelen + 1 + 4).toNat
    ⟨m, tagNext m w.params⟩

/-- `atag_setup_end`. -/
def atagSetupEnd (w : AtagWriter) : Mem :=
  putWord (putWord w.mem (w.params + 4) atagNone) w.params 0

/-- The loop over `pmm_get_mem_list`. -/
def atagSetupAreas (w : AtagWriter) : List PhysMemArea → AtagWriter
  | [] => w
  | area :: areas =>
    atagSetupAreas
      (if area.type = .unsecure then
        atagSetupMem w (UInt32.ofNat area.pstart) (UInt32.ofNat (sub32 area.pend area.pstart))
      else w) areas

/-- `if (cmdline != NULL) atag_setup_cmdline(cmdline)`. -/
def atagSetupLine (w : AtagWriter) : Option (List UInt8) → AtagWriter
  | none => w
  | some line => atagSetupCmdline w line

/-- `atag_generate_nonsecure`: the memory at the end, or `none` for `kpanic`.  The list of the boot
loader is a copy in the kernel's heap, so it is in a memory of its own. -/
def atagGenerateNonsecure (boot : Mem) (curAtags : Nat) (kmalloc : Nat → Bool)
    (physMem : List PhysMemArea) (m : Mem) (start : Nat) (rdstart rdsize : UInt32)
    (cmdl : Option CStr) : Option Mem :=
  match atagSetupRevision boot curAtags (atagSetupCore m start) with
  | none => none
  | some w =>
    match atagGetGuestCmdline kmalloc boot curAtags with
    | none => none
    | some cmdline =>
      let w := atagSetupLine (atagSetupAreas w physMem) (cmdline.or (cmdl.map CStr.chars))
      some (atagSetupEnd (if rdstart ≠ 0 then atagSetupInitrd w rdstart rdsize else w))

/-! ## 5. What the boot loader leaves, and what is to be written -/

/-- A list of the boot loader: it starts with a core tag, and lies in the address space. -/
structure BootList where
  mem : Mem
  addr : Nat
  core : Option AtagCore
  rest : List Atag
  stop : Nat
  listed : ListAt mem addr (.core core :: rest) stop
  ends : hdrTag mem stop = atagNone
  fits : stop + 8 ≤ 4294967296

def BootList.tags (b : BootList) : List Atag := .core b.core :: b.rest

def Atag.revision? : Atag → Option UInt32
  | .revision rev => some rev
  | _ => none

def Atag.cmdline? : Atag → Option (List UInt8)
  | .cmdline line => some line
  | _ => none

/-- The revision tag of the boot loader, if there is one. -/
def revisionTags (boot : List Atag) : List Atag :=
  (boot.findSome? Atag.revision?).toList.map .revision

/-- A tag for each unsecure area. -/
def memTags (physMem : List PhysMemArea) : List Atag :=
  (physMem.filter (·.type = .unsecure)).map fun area =>
    .mem (UInt32.ofNat area.pstart) (UInt32.ofNat (sub32 area.pend area.pstart))

/-- A tag for a command line that is there and not empty. -/
def cmdlineTags : Option (List UInt8) → List Atag
  | some (c :: cs) => [.cmdline (c :: cs)]
  | _ => []

def initrdTags (rdstart rdsize : UInt32) : List Atag :=
  if rdstart ≠ 0 then [.initrd2 rdstart rdsize] else []

/-- The list for the normal world. -/
def nonsecureTags (boot : List Atag) (physMem : List PhysMemArea) (rdstart rdsize : UInt32)
    (cmdl : Option (List UInt8)) : List Atag :=
  .core (some ⟨1, 0, 3⟩) :: (revisionTags boot ++ memTags physMem ++
    cmdlineTags ((boot.findSome? Atag.cmdline?).or cmdl) ++ initrdTags rdstart rdsize)

theorem length_cmdlineTags : ∀ line : Option (List UInt8), (cmdlineTags line).length ≤ 1
  | none => Nat.zero_le 1
  | some [] => Nat.zero_le 1
  | some (_ :: _) => Nat.le_refl 1

theorem length_revisionTags (boot : List Atag) : (revisionTags boot).length ≤ 1 := by
  rw [revisionTags, List.length_map, Option.length_toList]
  split <;> decide

theorem length_memTags (physMem : List PhysMemArea) : (memTags physMem).length ≤ physMem.length := by
  rw [memTags, List.length_map]
  exact List.length_filter_le _ _

/-! ## 6. What the writer adds -/

variable {w : AtagWriter} {size : UInt32} {payload : List UInt32} {boot : List Atag}

/-- A header, once what stands behind it has been written. -/
theorem hdr_written (hsame : ∀ x, x < p + 8 → m' x = putWord (putWord m (p + 4) tag) p size x) :
    hdrSize m' p = size ∧ hdrTag m' p = tag ∧ ∀ x, x < p → m' x = m x := by
  have hs : hdrSize m' p = size :=
    (word_congr fun x _ hhi => hsame x (by omega)).trans (word_putWord _ _ _)
  have ht : hdrTag m' p = tag :=
    (word_congr fun x _ hhi => hsame x hhi).trans
      ((word_putWord_of_ne _ (Or.inr (Nat.le_refl _))).trans (word_putWord _ _ _))
  refine ⟨hs, ht, fun x hx => ?_⟩
  rw [hsame x (by omega), putWord_of_ne _ (Or.inl hx), putWord_of_ne _ (Or.inl (by omega))]

/-- One more tag behind a list. -/
theorem ListAt.write (tag : UInt32) {n : Nat} (h : ListAt m a ts p) (hn : size.toNat = n + 2)
    (hsame : ∀ x, x < p + 8 → m' x = putWord (putWord m (p + 4) tag) p size x)
    (hparse : parseTag tag (words m' (p + 8) n) (strAt m' (4 * n) (p + 8)) = some t) :
    ListAt m' a (ts ++ [t]) (tagNext m' p) := by
  obtain ⟨hs, ht, hbelow⟩ := hdr_written hsame
  refine (h.congr hbelow).append ?_
  rw [readTag_eq (hs ▸ hn), ht, hparse]

theorem ListAt.setup (h : ListAt w.mem a ts w.params) (hsize : size.toNat = payload.length + 2)
    (hparse : ∀ line, parseTag tag payload line = some t) :
    ListAt (w.setup tag size payload).mem a (ts ++ [t]) (w.setup tag size payload).params := by
  have hpayload : words (w.setup tag size payload).mem (w.params + 8) payload.length = payload :=
    words_putWords _ _ _
  refine h.write tag hsize (fun x hx => putWords_of_lt hx) ?_
  rw [hpayload]
  exact hparse _

theorem ListAt.setupMem (h : ListAt w.mem a ts w.params) (start len : UInt32) :
    ListAt (atagSetupMem w start len).mem a (ts ++ [.mem start len]) (atagSetupMem w start len).params :=
  h.setup rfl fun _ => rfl

theorem ListAt.setupInitrd (h : ListAt w.mem a ts w.params) (rdstart rdsize : UInt32) :
    ListAt (atagSetupInitrd w rdstart rdsize).mem a (ts ++ [.initrd2 rdstart rdsize])
      (atagSetupInitrd w rdstart rdsize).params :=
  h.setup rfl fun _ => rfl

/-- **The command line keeps to its tag**, with its `NUL`: `size` rounds `length + 13` down, and the
header and the string take `length + 9`. -/
theorem ListAt.setupCmdline (h : ListAt w.mem a ts w.params) {line : List UInt8} (hnul : 0 ∉ line)
    (hfit : line.length + 13 < 4294967296) :
    ListAt (atagSetupCmdline w line).mem a (ts ++ cmdlineTags (some line))
      (atagSetupCmdline w line).params := by
  cases line with
  | nil => simpa [cmdlineTags, atagSetupCmdline] using h
  | cons c cs =>
    set line := c :: cs with hline
    have hlen : (UInt32.ofNat line.length).toNat = line.length :=
      UInt32.toNat_ofNat_of_lt' (by rw [UInt32.size]; omega)
    have hne : UInt32.ofNat line.length ≠ 0 := by
      intro hzero
      rw [hzero, hline, List.length_cons] at hlen
      exact absurd hlen.symm (Nat.succ_ne_zero _)
    have hroom : (UInt32.ofNat line.length + 1 + 4).toNat = line.length + 5 := by
      simp only [UInt32.toNat_add, hlen, UInt32.reduceToNat]
      omega
    have hsize : ((8 + UInt32.ofNat line.length + 1 + 4 : UInt32) >>> 2).toNat =
        (line.length + 5) / 4 + 2 := by
      simp only [UInt32.toNat_shiftRight, UInt32.toNat_add, hlen, UInt32.reduceToNat,
        Nat.shiftRight_eq_div_pow, Nat.reduceMod, Nat.reducePow]
      omega
    rw [atagSetupCmdline, if_neg hne]
    refine h.write atagCmdline hsize (fun x hx => ?_) ?_
    · exact (strncpy_of_lt hx).trans (memset_of_lt hx)
    · exact congrArg (Option.map Atag.cmdline)
        (strAt_strncpy hnul (by omega) (by omega))

/-- The areas, in the order of the list. -/
theorem ListAt.setupAreas (physMem : List PhysMemArea) (h : ListAt w.mem a ts w.params) :
    ListAt (atagSetupAreas w physMem).mem a (ts ++ memTags physMem)
      (atagSetupAreas w physMem).params := by
  induction physMem generalizing w ts with
  | nil => simpa [memTags, atagSetupAreas] using h
  | cons area physMem ih =>
    rw [atagSetupAreas, memTags, List.filter_cons]
    by_cases hun : area.type = .unsecure
    · simp only [hun, if_true, decide_true, List.map_cons]
      have hrest := ih (h.setupMem (UInt32.ofNat area.pstart)
        (UInt32.ofNat (sub32 area.pend area.pstart)))
      rwa [List.append_assoc] at hrest
    · simp only [hun, if_false, decide_false, Bool.false_eq_true]
      exact ih h

theorem ListAt.setupEnd {fuel : Nat} (h : ListAt w.mem a ts w.params) (hfuel : ts.length < fuel) :
    readTags (atagSetupEnd w) fuel a = some ts := by
  obtain ⟨_, htag, hbelow⟩ := hdr_written (fun x _ => rfl : ∀ x, x < w.params + 8 →
    atagSetupEnd w x = putWord (putWord w.mem (w.params + 4) atagNone) w.params 0 x)
  exact (h.congr hbelow).read htag hfuel

/-- The end of the list, for a command line that fits. -/
theorem ListAt.setupRest {fuel : Nat} (h : ListAt w.mem a ts w.params) (cmdline : Option (List UInt8))
    (hline : ∀ line, cmdline = some line → 0 ∉ line ∧ line.length + 13 < 4294967296)
    (rdstart rdsize : UInt32) (hfuel : ts.length + 2 < fuel) :
    readTags (atagSetupEnd (if rdstart ≠ 0 then
        atagSetupInitrd (atagSetupLine w cmdline) rdstart rdsize else atagSetupLine w cmdline)) fuel a =
      some (ts ++ cmdlineTags cmdline ++ initrdTags rdstart rdsize) := by
  have hcmd : ListAt (atagSetupLine w cmdline).mem a (ts ++ cmdlineTags cmdline)
      (atagSetupLine w cmdline).params := by
    cases cmdline with
    | none => simpa [cmdlineTags, atagSetupLine] using h
    | some line => exact h.setupCmdline (hline line rfl).1 (hline line rfl).2
  have hlen := length_cmdlineTags cmdline
  rw [initrdTags]
  by_cases hzero : rdstart = 0
  · simp only [hzero, ne_eq, not_true_eq_false, if_false, List.append_nil]
    exact hcmd.setupEnd (by rw [List.length_append]; omega)
  · simp only [ne_eq, hzero, not_false_eq_true, if_true]
    refine (hcmd.setupInitrd rdstart rdsize).setupEnd ?_
    rw [List.length_append, List.length_append, List.length_singleton]
    omega

/-! ## 7. What a search finds -/

theorem ListAt.length_le : ∀ {ts : List Atag} {a : Nat}, ListAt m a ts e → a + 8 * ts.length ≤ e
  | [], _, h => Nat.le_of_eq h
  | t :: ts, a, ⟨hread, hrest⟩ => by
    have hnext := readTag_next hread
    have hle := hrest.length_le
    rw [List.length_cons]
    omega

/-- `atag + hdr.size * 4` is the next tag. -/
theorem tagNext_eq (hfit : tagNext m a < 4294967296) : a + (hdrSize m a * 4).toNat = tagNext m a := by
  have h4 : (4 : UInt32).toNat = 4 := rfl
  rw [tagNext] at hfit ⊢
  rw [UInt32.toNat_mul, h4]
  omega

section Search

variable {α : Type} {want : UInt32} {f : Atag → Option α}

/-- What a search says that goes over the tags `ts` for those that `f` knows: the first of them, or
none. -/
def Found (m : Mem) (e : Nat) (f : Atag → Option α) (ts : List Atag) (r : Option (Option Nat)) : Prop :=
  (r = some none ∧ ts.findSome? f = none) ∨
    ∃ q u, r = some (some q) ∧ readTag m q = some u ∧ ts.findSome? f = f u ∧ (f u).isSome ∧
      tagNext m q ≤ e

theorem Found.cons {r : Option (Option Nat)} (h : Found m e f ts r) (ht : f t = none) :
    Found m e f (t :: ts) r := by
  have hskip : (t :: ts).findSome? f = ts.findSome? f := by rw [List.findSome?_cons, ht]
  rwa [Found, hskip]

theorem atagFind_spec
    (hf : ∀ tag payload line t, parseTag tag payload line = some t → ((f t).isSome ↔ tag = want))
    (hend : hdrTag m e = atagNone) (hfit : e < 4294967296) :
    ∀ {ts : List Atag} {t : Atag} {a fuel : Nat}, ListAt m a (t :: ts) e → ts.length < fuel →
      Found m e f (t :: ts) (atagFind m want fuel a)
  | ts, t, a, fuel + 1, ⟨hread, hrest⟩, hfuel => by
    obtain ⟨n, hn⟩ := Nat.exists_eq_add_of_le' (readTag_size hread)
    have hknown : (f t).isSome ↔ hdrTag m a = want := hf _ _ _ _ (readTag_eq hn ▸ hread)
    rw [atagFind]
    by_cases hwant : hdrTag m a = want
    · have ht := hknown.mpr hwant
      obtain ⟨v, hv⟩ := Option.isSome_iff_exists.mp ht
      have hfirst : (t :: ts).findSome? f = f t := by rw [List.findSome?_cons, hv]
      rw [if_pos hwant]
      exact Or.inr ⟨a, t, rfl, hread, hfirst, ht, hrest.le⟩
    · have ht : f t = none := Option.not_isSome_iff_eq_none.mp fun h => hwant (hknown.mp h)
      simp only [if_neg hwant, tagNext_eq (hrest.le.trans_lt hfit)]
      cases ts with
      | nil =>
        have hstop : tagNext m a = e := hrest
        rw [hstop, if_pos hend]
        exact Found.cons (Or.inl ⟨rfl, rfl⟩) ht
      | cons u ts =>
        rw [if_neg (readTag_ne_none hrest.1)]
        exact (atagFind_spec hf hend hfit hrest (Nat.lt_of_succ_lt_succ hfuel)).cons ht

end Search

/-- The search of the two readers goes through the list of the boot loader. -/
theorem BootList.found {α : Type} {want : UInt32} {f : Atag → Option α} (b : BootList)
    (hf : ∀ tag payload line t, parseTag tag payload line = some t → ((f t).isSome ↔ tag = want)) :
    Found b.mem b.stop f b.tags (atagFind b.mem want listFuel b.addr) := by
  have hlen := b.listed.length_le
  have hfit := b.fits
  rw [List.length_cons] at hlen
  exact atagFind_spec hf b.ends (by omega) b.listed (by rw [listFuel]; omega)

/-- The number of a kind of tag. -/
def Atag.number : Atag → UInt32
  | .core _ => atagCore
  | .mem _ _ => atagMem
  | .initrd2 _ _ => atagInitrd2
  | .revision _ => atagRevision
  | .cmdline _ => atagCmdline
  | .other tag => tag

/-- A tag has the number it was parsed with, and is of its own kind if there is one. -/
theorem parseTag_number {payload : List UInt32} {line : Option (List UInt8)}
    (h : parseTag tag payload line = some t) :
    t.number = tag ∧ ∀ x, t = .other x → x ≠ atagRevision ∧ x ≠ atagCmdline := by
  unfold parseTag at h
  split_ifs at h with _ hcore hmem hinitrd hrev hcmd
  · split at h <;> cases h <;> exact ⟨hcore.symm, nofun⟩
  · split at h <;> cases h
    exact ⟨hmem.symm, nofun⟩
  · split at h <;> cases h
    exact ⟨hinitrd.symm, nofun⟩
  · split at h <;> cases h
    exact ⟨hrev.symm, nofun⟩
  · obtain ⟨l, _, rfl⟩ := Option.map_eq_some_iff.mp h
    exact ⟨hcmd.symm, nofun⟩
  · obtain rfl := Option.some.inj h
    exact ⟨rfl, fun x hx => by obtain rfl := Atag.other.inj hx; exact ⟨hrev, hcmd⟩⟩

theorem revision?_iff (tag : UInt32) (payload : List UInt32) (line : Option (List UInt8)) (t : Atag)
    (h : parseTag tag payload line = some t) : t.revision?.isSome ↔ tag = atagRevision := by
  obtain ⟨rfl, hother⟩ := parseTag_number h
  cases t with
  | revision rev => exact iff_of_true rfl rfl
  | other x => exact iff_of_false Bool.false_ne_true (hother x rfl).1
  | _ => exact iff_of_false Bool.false_ne_true (by simp only [Atag.number]; decide)

theorem cmdline?_iff (tag : UInt32) (payload : List UInt32) (line : Option (List UInt8)) (t : Atag)
    (h : parseTag tag payload line = some t) : t.cmdline?.isSome ↔ tag = atagCmdline := by
  obtain ⟨rfl, hother⟩ := parseTag_number h
  cases t with
  | cmdline line => exact iff_of_true rfl rfl
  | other x => exact iff_of_false Bool.false_ne_true (hother x rfl).2
  | _ => exact iff_of_false Bool.false_ne_true (by simp only [Atag.number]; decide)

theorem readTag_revision {rev : UInt32} (h : readTag m a = some (.revision rev)) :
    hdrTag m a = atagRevision ∧ (hdrSize m a).toNat = 3 ∧ word m (a + 8) = rev := by
  obtain ⟨n, hn⟩ := Nat.exists_eq_add_of_le' (readTag_size h)
  rw [readTag_eq hn] at h
  have htag := (parseTag_number h).1.symm
  rw [htag] at h
  match n with
  | 0 => exact absurd h nofun
  | 1 => exact ⟨htag, hn, Atag.revision.inj (Option.some.inj h)⟩
  | n + 2 => exact absurd h nofun

theorem readTag_cmdline {line : List UInt8} (h : readTag m a = some (.cmdline line)) :
    ∃ n, (hdrSize m a).toNat = n + 2 ∧ strAt m (4 * n) (a + 8) = some line := by
  obtain ⟨n, hn⟩ := Nat.exists_eq_add_of_le' (readTag_size h)
  rw [readTag_eq hn] at h
  rw [(parseTag_number h).1.symm] at h
  obtain ⟨l, hl, hline⟩ := Option.map_eq_some_iff.mp h
  exact ⟨n, hn, hl.trans (congrArg some (Atag.cmdline.inj hline))⟩

/-- The revision tag of the boot loader is copied. -/
theorem BootList.setupRevision (b : BootList) (h : ListAt w.mem a ts w.params) :
    ∃ w', atagSetupRevision b.mem b.addr w = some w' ∧
      ListAt w'.mem a (ts ++ revisionTags b.tags) w'.params := by
  rw [atagSetupRevision, atagGetRevisionTag, revisionTags]
  rcases b.found revision?_iff with ⟨hnone, htags⟩ | ⟨q, u, hsome, hread, htags, hu, _⟩
  · rw [hnone, htags, Option.toList_none, List.map_nil, List.append_nil]
    exact ⟨w, rfl, h⟩
  · cases u with
    | revision rev =>
      obtain ⟨htag, hsize, hrev⟩ := readTag_revision hread
      have hparse : ∀ line, parseTag (hdrTag b.mem q) [word b.mem (q + 8)] line =
          some (.revision rev) := by
        intro line
        rw [htag, hrev]
        rfl
      rw [hsome, htags]
      exact ⟨_, rfl, h.setup hsize hparse⟩
    | _ => exact absurd hu Bool.false_ne_true

/-- The command line of the boot loader, as `atag_get_guest_cmdline` gets it. -/
theorem BootList.guestCmdline (b : BootList) (kmalloc : Nat → Bool) :
    (atagGetGuestCmdline kmalloc b.mem b.addr = some none ∧ b.tags.findSome? Atag.cmdline? = none) ∨
      ∃ line, b.tags.findSome? Atag.cmdline? = some line ∧ 0 ∉ line ∧
        line.length + 13 < 4294967296 ∧ atagGetGuestCmdline kmalloc b.mem b.addr =
          if kmalloc (line.length + 1) then some (some line) else none := by
  rw [atagGetGuestCmdline, atagGetCmdline]
  rcases b.found cmdline?_iff with ⟨hnone, htags⟩ | ⟨q, u, hsome, hread, htags, hu, hstop⟩
  · rw [hnone]
    exact Or.inl ⟨rfl, htags⟩
  · cases u with
    | cmdline line =>
      obtain ⟨n, hn, hline⟩ := readTag_cmdline hread
      have hlen := strAt_length hline
      have hfits := b.fits
      rw [tagNext, hn] at hstop
      have hlong : strAt b.mem 4294967296 (q + 8) = some line := strAt_mono hline (by omega)
      simp only [hsome, Option.map_some, hlong]
      exact Or.inr ⟨line, htags, strAt_nul hline, by omega, rfl⟩
    | _ => exact absurd hu Bool.false_ne_true

/-! ## 8. The new list -/

/-- **What a reader of the new list finds.**  Without memory for a copy of the command line the kernel
stops; otherwise the list is the core tag, the revision tag of the boot loader, a memory tag for each
unsecure area, the command line and the initial RAM disk.  The command line is that of the boot loader,
and the caller's where the boot loader has none. -/
theorem atagGenerateNonsecure_reads (b : BootList) (kmalloc : Nat → Bool) (physMem : List PhysMemArea)
    (m : Mem) (start : Nat) (rdstart rdsize : UInt32) (cmdl : Option CStr) :
    match atagGenerateNonsecure b.mem b.addr kmalloc physMem m start rdstart rdsize cmdl with
    | none => ∃ line, b.tags.findSome? Atag.cmdline? = some line ∧ kmalloc (line.length + 1) = false
    | some m' => readTags m' (physMem.length + 6) start =
        some (nonsecureTags b.tags physMem rdstart rdsize (cmdl.map CStr.chars)) := by
  have hempty : ListAt m start [] start := rfl
  have hcore : ListAt (atagSetupCore m start).mem start [.core (some ⟨1, 0, 3⟩)]
      (atagSetupCore m start).params := ListAt.setup (w := ⟨m, start⟩) hempty rfl fun _ => rfl
  obtain ⟨w, hw, hrev⟩ := b.setupRevision hcore
  have hareas := hrev.setupAreas physMem
  have hlen : ([Atag.core (some ⟨1, 0, 3⟩)] ++ revisionTags b.tags ++ memTags physMem).length + 2 <
      physMem.length + 6 := by
    have hrevlen := length_revisionTags b.tags
    have hmemlen := length_memTags physMem
    rw [List.length_append, List.length_append, List.length_singleton]
    omega
  have hcmdl : ∀ line, cmdl.map CStr.chars = some line → 0 ∉ line ∧ line.length + 13 < 4294967296 := by
    intro line hline
    obtain ⟨s, _, rfl⟩ := Option.map_eq_some_iff.mp hline
    have hfits := s.fits
    exact ⟨s.noNul, by omega⟩
  rw [atagGenerateNonsecure, hw]
  rcases b.guestCmdline kmalloc with ⟨hguest, htags⟩ | ⟨line, htags, hnul, hfit, hguest⟩
  · simp only [hguest, nonsecureTags, htags, Option.none_or]
    exact hareas.setupRest _ hcmdl rdstart rdsize hlen
  · by_cases hmalloc : kmalloc (line.length + 1) = true
    · simp only [hguest, if_pos hmalloc, nonsecureTags, htags, Option.some_or]
      refine hareas.setupRest _ (fun l hl => ?_) rdstart rdsize hlen
      exact Option.some.inj hl ▸ ⟨hnul, hfit⟩
    · simp only [hguest, if_neg hmalloc]
      exact ⟨line, htags, Bool.eq_false_iff.mpr hmalloc⟩

/-! ## 9. A boot loader without a command line -/

/-- A core tag and the end of the list, from address 64 on. -/
def coreList : BootList where
  mem := atagSetupEnd (atagSetupCore (fun _ => 0) 64)
  addr := 64
  core := some ⟨1, 0, 3⟩
  rest := []
  stop := 84
  listed := ⟨by decide +kernel,
    (by decide +kernel : tagNext (atagSetupEnd (atagSetupCore (fun _ => 0) 64)) 64 = 84)⟩
  ends := by decide +kernel
  fits := by decide

/-- The list that is made of it, with a command line of the caller. -/
def callerList : Option (List Atag) :=
  (atagGenerateNonsecure coreList.mem coreList.addr (fun _ => true) [] (fun _ => 0) 64 0 0
    (some ⟨[97], by decide, by decide⟩)).bind (readTags · 6 64)

/-- **The caller's command line takes the place of one that the boot loader does not have.** -/
theorem cmdline_of_caller :
    callerList = some [.core (some ⟨1, 0, 3⟩), .cmdline [97]] ∧
      callerList ≠ some (nonsecureTags coreList.tags [] 0 0 none) := by
  decide +kernel

end AndixOs.Boot
