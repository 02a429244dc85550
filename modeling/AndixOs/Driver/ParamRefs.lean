/-
# The memory references of an operation

`tee_translate_parameter_to_tz` puts the addresses and ids of the secure world into the memory references
of an operation and makes a temporary memory for each buffer that is not registered.
`tee_translate_parameter_from_tz` is to undo that: it looks the memories up by what it finds in the
operation, copies them out, frees the temporary ones and puts the client's addresses and ids back.

* `Taken`: what the first has done when it succeeds.
* `fromTz_iff`: when the second undoes it.
-/
import AndixOs.Driver.TeeTables
import Mathlib.Data.List.Count

namespace AndixOs.Driver

open AndixOs AndixOs.Swi

/-! ## 1. The loops -/

section Loop

variable {body : Nat → TeecType → TeecParamter → TeeDriver → Option ParamDone}
  {P : List (TeecType × TeecParamter) → TeeDriver → Prop} {i : Nat}
  {ps : List (TeecType × TeecParamter)} {s : TeeDriver} {r : ParamsDone}

/-- What every round preserves holds at the end, with some parameters left. -/
theorem paramLoop_inv
    (step : ∀ {i t p ps s d}, body i t p s = some d → P ((t, p) :: ps) s → P ps d.driver)
    (h : paramLoop body i ps s = some r) (hP : P ps s) : ∃ rest, P rest r.driver := by
  induction ps generalizing i s r with
  | nil =>
    obtain rfl := Option.some.inj h
    exact ⟨[], hP⟩
  | cons x ps ih =>
    obtain ⟨t, p⟩ := x
    rw [paramLoop] at h
    match hbody : body i t p s, h with
    | some ⟨some e, p', s'⟩, h =>
      obtain rfl := Option.some.inj h
      exact ⟨ps, step hbody hP⟩
    | some ⟨none, p', s'⟩, h =>
      obtain ⟨r', hr', rfl⟩ := Option.map_eq_some_iff.mp h
      obtain ⟨rest, hrest⟩ := ih hr' (step hbody hP)
      exact ⟨rest, hrest⟩

end Loop

/-! ## 2. To the secure world -/

/-- What `tee_translate_parameter_to_tz` has done to the parameters from the `i`th on when it succeeds,
and the secure world after it: the parameters, and the temporary memories with whether they are in the
list.  Values may be anything. -/
inductive Taken (l : Linux) (ms : List TeeSharedMemory) : Nat → List (TeecType × TeecParamter) →
    List (TeecType × TeecParamter) → List (Bool × TeeTmpMemory) → Prop
  | nil (i : Nat) : Taken l ms i [] [] []
  | temp {i : Nat} {t : TeecType} {p : TeecParamter} {ps ps' : List (TeecType × TeecParamter)}
      {new : List (Bool × TeeTmpMemory)} {ptr vaddr : Nat} (ht : t.isTemp = true)
      (hentry : (l.param i).entry = some ptr) (hbuf : (l.param i).buf = some vaddr)
      (rest : Taken l ms (i + 1) ps ps' new) :
      Taken l ms i ((t, p) :: ps) ((t, withRef p (l.virtToPhys vaddr)) :: ps')
        (((l.param i).node, ⟨ptr, p.buffer, vaddr, l.virtToPhys vaddr, p.size⟩) :: new)
  | registered {i : Nat} {t : TeecType} {p : TeecParamter} {ps ps' : List (TeecType × TeecParamter)}
      {new : List (Bool × TeeTmpMemory)} {mem : TeeSharedMemory} (ht : t.isTemp = false)
      (hreg : t.isRegistered = true) (hmem : ms.find? (fun x => x.id = p.memid) = some mem)
      (rest : Taken l ms (i + 1) ps ps' new) :
      Taken l ms i ((t, p) :: ps) ((t, withRef p mem.tzId) :: ps') new
  | value {i : Nat} {t : TeecType} {p : TeecParamter} {ps ps' : List (TeecType × TeecParamter)}
      {new : List (Bool × TeeTmpMemory)} (ht : t.isTemp = false) (hreg : t.isRegistered = false)
      (p' : TeecParamter) (rest : Taken l ms (i + 1) ps ps' new) :
      Taken l ms i ((t, p) :: ps) ((t, p') :: ps') new

/-- Those that are in the list. -/
def kept (new : List (Bool × TeeTmpMemory)) : List TeeTmpMemory := (new.filter (·.1)).map (·.2)

def addresses (new : List (Bool × TeeTmpMemory)) : List Nat := new.map (·.2.ptr)

section Taken

variable {l : Linux} {ms : List TeeSharedMemory} {i : Nat} {t : TeecType} {p : TeecParamter}
  {ps ps' : List (TeecType × TeecParamter)} {new : List (Bool × TeeTmpMemory)} {s s' : TeeDriver}

theorem kept_ptr_subset : (kept new).map TeeTmpMemory.ptr ⊆ addresses new := by
  intro x hx
  obtain ⟨m, hm, rfl⟩ := List.mem_map.mp hx
  obtain ⟨n, hn, rfl⟩ := List.mem_map.mp hm
  exact List.mem_map.mpr ⟨n, (List.mem_filter.mp hn).1, rfl⟩

/-- The driver with new temporary memories. -/
def TeeDriver.withTemps (s : TeeDriver) (new : List (Bool × TeeTmpMemory)) : TeeDriver :=
  { s with temps := s.temps ++ kept new, live := s.live ++ addresses new }

theorem withTemps_cons (node : Bool) (m : TeeTmpMemory) :
    (teeTmpMemAdd node m s).withTemps new = s.withTemps ((node, m) :: new) := by
  cases node <;> simp [TeeDriver.withTemps, teeTmpMemAdd, listAdd, kept, addresses]

/-- One round to the secure world, when it succeeds. -/
theorem paramToTz_cases {p' : TeecParamter} (h : paramToTz l i t p s = some ⟨none, p', s'⟩) :
    (t.isTemp = true ∧ ∃ ptr vaddr, (l.param i).entry = some ptr ∧ (l.param i).buf = some vaddr ∧
      p' = withRef p (l.virtToPhys vaddr) ∧
      s' = teeTmpMemAdd (l.param i).node ⟨ptr, p.buffer, vaddr, l.virtToPhys vaddr, p.size⟩ s) ∨
    (t.isTemp = false ∧ t.isRegistered = true ∧ s' = s ∧
      ∃ mem, s.memories.find? (fun x => x.id = p.memid) = some mem ∧ p' = withRef p mem.tzId) ∨
    (t.isTemp = false ∧ t.isRegistered = false ∧ s' = s) := by
  rw [paramToTz] at h
  by_cases ht : t.isTemp = true
  · rw [if_pos ht] at h
    match hentry : (l.param i).entry, hbuf : (l.param i).buf, h with
    | some ptr, some vaddr, h =>
      simp only at h
      split at h
      · exact absurd h nofun
      · obtain ⟨-, rfl, rfl⟩ := ParamDone.mk.inj (Option.some.inj h)
        exact .inl ⟨ht, ptr, vaddr, rfl, rfl, rfl, rfl⟩
  · rw [if_neg ht] at h
    by_cases hreg : t.isRegistered = true
    · rw [if_pos hreg] at h
      match hfind : teeMemoryFindById l p.memid s, h with
      | some (some mem), h =>
        simp only at h
        split at h
        · exact absurd h nofun
        · obtain ⟨-, rfl, rfl⟩ := ParamDone.mk.inj (Option.some.inj h)
          exact .inr (.inl ⟨by simpa using ht, hreg, rfl, mem, lookup_eq_some hfind, rfl⟩)
    · rw [if_neg hreg] at h
      obtain ⟨-, -, rfl⟩ := ParamDone.mk.inj (Option.some.inj h)
      exact .inr (.inr ⟨by simpa using ht, by simpa using hreg, rfl⟩)

theorem toTz_taken (h : paramLoop (paramToTz l) i ps s = some ⟨none, ps', s'⟩) :
    ∃ new, Taken l s.memories i ps ps' new ∧ s' = s.withTemps new := by
  induction ps generalizing i s ps' s' with
  | nil =>
    obtain ⟨-, rfl, rfl⟩ := ParamsDone.mk.inj (Option.some.inj h)
    exact ⟨[], .nil i, by simp [TeeDriver.withTemps, kept, addresses]⟩
  | cons x ps ih =>
    obtain ⟨t, p⟩ := x
    rw [paramLoop] at h
    match hbody : paramToTz l i t p s, h with
    | some ⟨none, p', s₁⟩, h =>
      obtain ⟨⟨e, ps₁, s₂⟩, hr, hmk⟩ := Option.map_eq_some_iff.mp h
      obtain ⟨rfl, rfl, rfl⟩ := ParamsDone.mk.inj hmk
      obtain ⟨new, hnew, rfl⟩ := ih hr
      obtain ⟨ht, ptr, vaddr, hentry, hbuf, rfl, rfl⟩ | ⟨ht, hreg, rfl, mem, hmem, rfl⟩ |
        ⟨ht, hreg, rfl⟩ := paramToTz_cases hbody
      · exact ⟨_, .temp ht hentry hbuf hnew, withTemps_cons _ _⟩
      · exact ⟨new, .registered ht hreg hmem hnew, rfl⟩
      · exact ⟨new, .value ht hreg p' hnew, rfl⟩

/-- The secure world leaves the memory references alone. -/
theorem Taken.answered (h : Taken l ms i ps ps' new) {f : Nat → TeecType × TeecParamter → TeecType × TeecParamter}
    (htype : ∀ k x, (f k x).1 = x.1)
    (href : ∀ k x, x.1.isTemp = true ∨ x.1.isRegistered = true → f k x = x) :
    Taken l ms i ps (ps'.mapIdx f) new := by
  induction h generalizing f with
  | nil i => exact .nil i
  | temp ht hentry hbuf rest ih =>
    rw [List.mapIdx_cons, href 0 _ (.inl ht)]
    exact .temp ht hentry hbuf (ih (fun k => htype (k + 1)) fun k => href (k + 1))
  | registered ht hreg hmem rest ih =>
    rw [List.mapIdx_cons, href 0 _ (.inr hreg)]
    exact .registered ht hreg hmem (ih (fun k => htype (k + 1)) fun k => href (k + 1))
  | @value i t p ps ps' new ht hreg p' rest ih =>
    have hhead : f 0 (t, p') = (t, (f 0 (t, p')).2) := Prod.ext (htype 0 _) rfl
    rw [List.mapIdx_cons, hhead]
    exact .value ht hreg _ (ih (fun k => htype (k + 1)) fun k => href (k + 1))

theorem param_fst (a : Answer) (k : Nat) (x : TeecType × TeecParamter) : (a.param k x).1 = x.1 := by
  rw [Answer.param]
  split <;> rfl

theorem param_of_ref (a : Answer) (k : Nat) (x : TeecType × TeecParamter)
    (hx : x.1.isTemp = true ∨ x.1.isRegistered = true) : a.param k x = x :=
  if_pos (by simpa using hx)

theorem Taken.answer (h : Taken l ms i ps ps' new) (a : Answer) : Taken l ms i ps (ps'.mapIdx a.param) new :=
  h.answered (param_fst a) (param_of_ref a)

/-- There are as many temporary memories as rounds that free one. -/
theorem Taken.length_eq (h : Taken l ms i ps ps' new) : new.length = ps'.countP (·.1.isTemp) := by
  induction h with
  | nil i => rfl
  | temp ht _ _ _ ih => simp [ht, ih]
  | registered ht _ _ _ ih => simp [ht, ih]
  | value ht _ _ _ ih => simp [ht, ih]

end Taken

/-! ## 3. From the secure world -/

/-- What a round does to the driver: the tables with ids stay, copies are added, and a temporary memory is
freed or not. -/
structure Round (temp : Bool) (s s' : TeeDriver) : Prop where
  contexts : s'.contexts = s.contexts
  sessions : s'.sessions = s.sessions
  memories : s'.memories = s.memories
  copies : ∃ w, s'.copies = s.copies ++ w
  temps : (s'.temps = s.temps ∧ s'.live = s.live) ∨
    (temp = true ∧ ∃ m ∈ s.temps, s'.temps = remove TeeTmpMemory.ptr m.ptr s.temps ∧
      s'.live = s.live.erase m.ptr)

section FromTz

variable {l : Linux} {i : Nat} {t : TeecType} {p : TeecParamter} {ps : List (TeecType × TeecParamter)}
  {s s' : TeeDriver} {d : ParamDone} {r : ParamsDone}

theorem Round.refl (temp : Bool) (s : TeeDriver) : Round temp s s :=
  ⟨rfl, rfl, rfl, ⟨[], (List.append_nil _).symm⟩, .inl ⟨rfl, rfl⟩⟩

theorem paramFromTz_round (h : paramFromTz l i t p s = some d) : Round t.isTemp s d.driver := by
  rw [paramFromTz] at h
  by_cases ht : t.isTemp = true
  · rw [if_pos ht] at h
    match hfind : teeTmpMemoryFindByPaddr l p.buffer s, h with
    | some none, h =>
      obtain rfl := Option.some.inj h
      exact .refl _ s
    | some (some mem), h =>
      have hmem : mem ∈ s.temps := List.mem_of_find?_eq_some (lookup_eq_some hfind)
      simp only at h
      split at h
      · obtain rfl := Option.some.inj h
        exact ⟨rfl, rfl, rfl, ⟨[], (List.append_nil _).symm⟩, .inr ⟨ht, mem, hmem, rfl, rfl⟩⟩
      split at h
      · obtain rfl := Option.some.inj h
        exact ⟨rfl, rfl, rfl, ⟨_, rfl⟩, .inr ⟨ht, mem, hmem, rfl, rfl⟩⟩
      · obtain rfl := Option.some.inj h
        exact .refl _ s
  rw [if_neg ht] at h
  by_cases hreg : t.isRegistered = true
  · rw [if_pos hreg] at h
    match teeMemoryFindByTzid l p.memid s, h with
    | some none, h =>
      obtain rfl := Option.some.inj h
      exact .refl _ s
    | some (some mem), h =>
      simp only at h
      split at h
      · obtain rfl := Option.some.inj h
        exact .refl _ s
      split at h
      · obtain rfl := Option.some.inj h
        exact ⟨rfl, rfl, rfl, ⟨_, rfl⟩, .inl ⟨rfl, rfl⟩⟩
      · obtain rfl := Option.some.inj h
        exact .refl _ s
  · rw [if_neg hreg] at h
    obtain rfl := Option.some.inj h
    exact .refl _ s

/-- Copies are not taken back. -/
theorem fromTz_copies (h : paramLoop (paramFromTz l) i ps s = some r) :
    ∃ w, r.driver.copies = s.copies ++ w := by
  obtain ⟨rest, hrest⟩ := paramLoop_inv (P := fun _ s' => ∃ w, s'.copies = s.copies ++ w)
    (fun hd ⟨w, hw⟩ => by
      obtain ⟨w', hw'⟩ := (paramFromTz_round hd).copies
      exact ⟨w ++ w', by rw [hw', hw, List.append_assoc]⟩) h ⟨[], (List.append_nil _).symm⟩
  exact hrest

/-- A temporary memory that is not in the list is never freed. -/
theorem fromTz_lost (h : paramLoop (paramFromTz l) i ps s = some r) {ptr : Nat} (hlive : ptr ∈ s.live)
    (hlost : ptr ∉ s.temps.map TeeTmpMemory.ptr) : ptr ∈ r.driver.live := by
  obtain ⟨rest, hrest, -⟩ := paramLoop_inv
    (P := fun _ s' => ptr ∈ s'.live ∧ ptr ∉ s'.temps.map TeeTmpMemory.ptr)
    (fun hd ⟨hlive, hlost⟩ => by
      obtain ⟨htemps, hl⟩ | ⟨-, m, hm, htemps, hl⟩ := (paramFromTz_round hd).temps
      · rw [htemps, hl]
        exact ⟨hlive, hlost⟩
      · have hne : ptr ≠ m.ptr := fun he => hlost (he ▸ List.mem_map.mpr ⟨m, hm, rfl⟩)
        rw [htemps, hl]
        exact ⟨(List.mem_erase_of_ne hne).mpr hlive,
          fun hin => hlost (((remove_sublist _).map TeeTmpMemory.ptr).subset hin)⟩) h ⟨hlive, hlost⟩
  exact hrest

/-- Each round frees one temporary memory at most. -/
theorem fromTz_count (h : paramLoop (paramFromTz l) i ps s = some r) (q : Nat → Bool) :
    s.live.countP q ≤ r.driver.live.countP q + ps.countP (·.1.isTemp) := by
  obtain ⟨rest, hrest⟩ := paramLoop_inv
    (P := fun rest s' => s.live.countP q + rest.countP (·.1.isTemp) ≤
      s'.live.countP q + ps.countP (·.1.isTemp))
    (fun {i t p ps s d} hd hle => by
      rw [List.countP_cons] at hle
      obtain ⟨-, hl⟩ | ⟨ht, m, -, -, hl⟩ := (paramFromTz_round hd).temps
      · rw [hl]
        omega
      · have herase : s.live.countP q ≤ (s.live.erase m.ptr).countP q + 1 := by
          rw [List.countP_erase]
          split <;> omega
        rw [hl]
        simp only [ht, if_true] at hle
        omega) h le_rfl
  omega

end FromTz

/-! ## 4. When the references come back -/

/-- The memory references are those of the client. -/
def SameRefs (ps ps' : List (TeecType × TeecParamter)) : Prop :=
  List.Forall₂ (fun x y => y.1 = x.1 ∧
    (x.1.isTemp = true ∨ x.1.isRegistered = true → y.2.word0 = x.2.word0)) ps ps'

/-- The copy that brings a parameter back to the client, where it is an output. -/
def outputOf (l : Linux) (ms : List TeeSharedMemory) (i : Nat) (x : TeecType × TeecParamter) :
    List UserCopy :=
  if x.1.isTemp then
    if x.1 = .memrefTempInput then []
    else (l.param i).buf.toList.map fun vaddr => ⟨x.2.buffer, vaddr, x.2.size⟩
  else if x.1.isRegistered then
    if x.1 = .memrefPartialInput then []
    else (ms.find? fun m => m.id = x.2.memid).toList.map fun m => ⟨m.userAddr, m.comVaddr, m.size⟩
  else []

/-- The copies that the parameters from the `i`th on call for. -/
def outputs (l : Linux) (ms : List TeeSharedMemory) : Nat → List (TeecType × TeecParamter) → List UserCopy
  | _, [] => []
  | i, x :: xs => outputOf l ms i x ++ outputs l ms (i + 1) xs

/-- A temporary memory comes back: it is in the list, no older one of the list has its physical address,
and the copy of an output succeeds. -/
def TempRestored (l : Linux) (T : List TeeTmpMemory) (i : Nat) (t : TeecType) : Prop :=
  (l.param i).node = true ∧ (∀ vaddr ∈ (l.param i).buf, ∀ m ∈ T, m.comPaddr ≠ l.virtToPhys vaddr) ∧
    (t ≠ .memrefTempInput → (l.param i).copiedOut = true)

/-- A registered memory comes back: the first with its `tz_id` has its id, and the copy of an output
succeeds and is the one of the client's memory. -/
def RegisteredRestored (l : Linux) (ms : List TeeSharedMemory) (i : Nat) (t : TeecType) (p : TeecParamter) :
    Prop :=
  ∃ m m', ms.find? (fun x => x.id = p.memid) = some m ∧ ms.find? (fun x => x.tzId = m.tzId) = some m' ∧
    m'.id = p.memid ∧ (t ≠ .memrefPartialInput → (l.param i).copiedOut = true ∧
      m'.userAddr = m.userAddr ∧ m'.comVaddr = m.comVaddr ∧ m'.size = m.size)

/-- All parameters from the `i`th on come back. -/
def ParamsRestored (l : Linux) (T : List TeeTmpMemory) (ms : List TeeSharedMemory) :
    Nat → List (TeecType × TeecParamter) → Prop
  | _, [] => True
  | i, (t, p) :: ps =>
    (t.isTemp = true → TempRestored l T i t) ∧
    (t.isTemp = false → t.isRegistered = true → RegisteredRestored l ms i t p) ∧
    ParamsRestored l T ms (i + 1) ps

section Restored

variable {l : Linux} {T : List TeeTmpMemory} {ms : List TeeSharedMemory} {L : List Nat} {i : Nat}
  {t : TeecType} {p q : TeecParamter} {ps ps' : List (TeecType × TeecParamter)}
  {new : List (Bool × TeeTmpMemory)} {s s' : TeeDriver}

/-- What is left of the loop gives the client `ps` back, makes the copies `out` and frees all but `L`. -/
def GivesBack (l : Linux) (i : Nat) (ps ps' : List (TeecType × TeecParamter)) (out : List UserCopy)
    (L : List Nat) (s : TeeDriver) : Prop :=
  ∃ r, paramLoop (paramFromTz l) i ps' s = some r ∧ SameRefs ps r.params ∧
    r.driver.copies = s.copies ++ out ∧ r.driver.live = L

/-- A round that succeeds gives its parameter back, and the rest is up to the others. -/
theorem givesBack_cons (ps ps' : List (TeecType × TeecParamter)) (p₀ : TeecParamter) (L : List Nat)
    {w : List UserCopy} (out : List UserCopy) (hbody : paramFromTz l i t p s = some ⟨none, q, s'⟩)
    (hw : s'.copies = s.copies ++ w) :
    GivesBack l i ((t, p₀) :: ps) ((t, p) :: ps') (w ++ out) L s ↔
      ((t.isTemp = true ∨ t.isRegistered = true → q.word0 = p₀.word0) ∧
        GivesBack l (i + 1) ps ps' out L s') := by
  rw [GivesBack, paramLoop, hbody]
  constructor
  · rintro ⟨r, hr, hrefs, hcopies, hlive⟩
    obtain ⟨r', hr', rfl⟩ := Option.map_eq_some_iff.mp hr
    obtain ⟨⟨-, hq⟩, hrefs⟩ := List.forall₂_cons.mp hrefs
    refine ⟨hq, r', hr', hrefs, ?_, hlive⟩
    rw [hw, List.append_assoc]
    exact hcopies
  · rintro ⟨hq, r, hr, hrefs, hcopies, hlive⟩
    refine ⟨_, Option.map_eq_some_iff.mpr ⟨r, hr, rfl⟩, .cons ⟨rfl, hq⟩ hrefs, ?_, hlive⟩
    rw [hw, List.append_assoc] at hcopies
    exact hcopies

/-- An address that is live in the end, though it should be free. -/
theorem not_givesBack {out : List UserCopy} {ptr : Nat} (hptr : ptr ∉ L)
    (hlive : ∀ r, paramLoop (paramFromTz l) i ps' s = some r → ptr ∈ r.driver.live) :
    ¬GivesBack l i ps ps' out L s := by
  rintro ⟨r, hr, -, -, rfl⟩
  exact hptr (hlive r hr)

/-- A round that fails ends the loop. -/
theorem paramLoop_error {e : UInt32} {r : ParamsDone} (hbody : paramFromTz l i t p s = some ⟨some e, q, s'⟩)
    (hr : paramLoop (paramFromTz l) i ((t, p) :: ps) s = some r) : r.driver = s' := by
  rw [paramLoop, hbody] at hr
  obtain rfl := Option.some.inj hr
  rfl

/-- A round that succeeds leaves the rest to the others. -/
theorem paramLoop_next {r : ParamsDone} (hbody : paramFromTz l i t p s = some ⟨none, q, s'⟩)
    (hr : paramLoop (paramFromTz l) i ((t, p) :: ps) s = some r) :
    ∃ r', paramLoop (paramFromTz l) (i + 1) ps s' = some r' ∧ r'.driver = r.driver := by
  rw [paramLoop, hbody] at hr
  obtain ⟨r', hr', rfl⟩ := Option.map_eq_some_iff.mp hr
  exact ⟨r', hr', rfl⟩

/-- A temporary memory whose turn it is: it is in the list behind `T`. -/
theorem find_temp (new : List (Bool × TeeTmpMemory)) {m : TeeTmpMemory} (hT : ∀ x ∈ T, x.comPaddr ≠ m.comPaddr) :
    (T ++ m :: kept new).find? (fun x => x.comPaddr = m.comPaddr) = some m := by
  have hnone : T.find? (fun x => x.comPaddr = m.comPaddr) = none :=
    List.find?_eq_none.mpr fun x hx => by simpa using hT x hx
  rw [List.find?_append, hnone, Option.none_or, List.find?_cons_of_pos (by simp)]

/-- Freed, it leaves those behind it. -/
theorem free_temp {m : TeeTmpMemory} (htemps : s.temps = T ++ m :: kept new)
    (hlive : s.live = L ++ m.ptr :: addresses new) (hT : m.ptr ∉ T.map TeeTmpMemory.ptr) (hL : m.ptr ∉ L) :
    (teeTmpMemFree m s).temps = T ++ kept new ∧ (teeTmpMemFree m s).live = L ++ addresses new := by
  constructor
  · exact (congrArg _ htemps).trans ((remove_append_right hT).trans (congrArg _ remove_cons_self))
  · refine (congrArg (List.erase · m.ptr) hlive).trans ?_
    simp only [List.erase_append_right _ hL, List.erase_cons_head]

/-- What the copy of a temporary memory adds to the record. -/
def tempCopy (t : TeecType) (m : TeeTmpMemory) : List UserCopy :=
  if t = .memrefTempInput then [] else [⟨m.userAddr, m.comVaddr, m.size⟩]

def memoryCopy (t : TeecType) (m : TeeSharedMemory) : List UserCopy :=
  if t = .memrefPartialInput then [] else [⟨m.userAddr, m.comVaddr, m.size⟩]

/-- A round for a temporary memory that is found. -/
theorem paramFromTz_temp {m : TeeTmpMemory} (ht : t.isTemp = true)
    (hfind : s.temps.find? (fun x => x.comPaddr = p.buffer) = some m) :
    paramFromTz l i t p s =
      if t = .memrefTempInput ∨ (l.param i).copiedOut = true then
        some ⟨none, withRef p m.userAddr, teeTmpMemFree m { s with copies := s.copies ++ tempCopy t m }⟩
      else some ⟨some teecErrorCommunication, p, s⟩ := by
  rw [paramFromTz, if_pos ht, teeTmpMemoryFindByPaddr, lookup_of_find hfind]
  by_cases hin : t = .memrefTempInput
  · simp [hin, tempCopy]
  · cases hout : (l.param i).copiedOut <;> simp [hin, tempCopy, TeeDriver.copyToUser]

/-- A round for a registered memory that is found. -/
theorem paramFromTz_registered {m : TeeSharedMemory} (ht : t.isTemp = false) (hreg : t.isRegistered = true)
    (hfind : s.memories.find? (fun x => x.tzId = p.memid) = some m) :
    paramFromTz l i t p s =
      if t = .memrefPartialInput ∨ (l.param i).copiedOut = true then
        some ⟨none, withRef p m.id, { s with copies := s.copies ++ memoryCopy t m }⟩
      else some ⟨some teecErrorCommunication, p, s⟩ := by
  rw [paramFromTz, if_neg (by simp [ht]), if_pos hreg, teeMemoryFindByTzid, lookup_of_find hfind]
  by_cases hin : t = .memrefPartialInput
  · simp [hin, memoryCopy]
  · cases hout : (l.param i).copiedOut <;> simp [hin, memoryCopy, TeeDriver.copyToUser]

/-- A temporary memory that was there before hides a new one: it is freed in its place. -/
theorem not_givesBack_of_older {m o : TeeTmpMemory} {node : Bool} {out : List UserCopy} {p₀ : TeecParamter}
    (htaken : Taken l ms (i + 1) ps ps' new) (ht : t.isTemp = true)
    (hlive : s.live = L ++ addresses ((node, m) :: new))
    (hT : ∀ a ∈ addresses ((node, m) :: new), a ∉ T.map TeeTmpMemory.ptr)
    (hL : ∀ a ∈ addresses ((node, m) :: new), a ∉ L) (ho : o ∈ T)
    (hfind : s.temps.find? (fun x => x.comPaddr = p.buffer) = some o) :
    ¬GivesBack l i ((t, p₀) :: ps) ((t, p) :: ps') out L s := by
  rintro ⟨r, hr, -, -, hl⟩
  -- the new ones that are allocated in the end
  have hnone : r.driver.live.countP (· ∈ addresses ((node, m) :: new)) = 0 := by
    rw [hl, List.countP_eq_zero]
    intro a ha hin
    exact hL a (of_decide_eq_true hin) ha
  have hall : (addresses ((node, m) :: new)).length ≤
      s.live.countP (· ∈ addresses ((node, m) :: new)) := by
    rw [hlive, List.countP_append]
    refine Nat.le_trans (Nat.le_of_eq ?_) (Nat.le_add_left _ _)
    exact (List.countP_eq_length.mpr fun a ha => decide_eq_true ha).symm
  have hold : o.ptr ∉ addresses ((node, m) :: new) := fun hin =>
    hT _ hin (List.mem_map.mpr ⟨o, ho, rfl⟩)
  have hlen : (addresses ((node, m) :: new)).length = ps'.countP (·.1.isTemp) + 1 := by
    rw [← htaken.length_eq, addresses, List.length_map, List.length_cons]
  have hround := paramFromTz_temp (l := l) (i := i) ht hfind
  split at hround
  · -- the round frees the old one, and those after it are too few
    obtain ⟨r', hr', hd⟩ := paramLoop_next hround hr
    have hcount := fromTz_count hr' (· ∈ addresses ((node, m) :: new))
    have herase : s.live.countP (· ∈ addresses ((node, m) :: new)) =
        (s.live.erase o.ptr).countP (· ∈ addresses ((node, m) :: new)) := by
      rw [List.countP_erase, if_neg fun h => hold (of_decide_eq_true h.2), Nat.sub_zero]
    rw [hd, hnone, Nat.zero_add] at hcount
    rw [herase, hlen] at hall
    exact Nat.not_succ_le_self _ (hall.trans hcount)
  · rw [paramLoop_error hround hr] at hnone
    omega

theorem tempRestored_iff {vaddr : Nat} (hbuf : (l.param i).buf = some vaddr) :
    TempRestored l T i t ↔ (l.param i).node = true ∧ (∀ m ∈ T, m.comPaddr ≠ l.virtToPhys vaddr) ∧
      (t = .memrefTempInput ∨ (l.param i).copiedOut = true) := by
  simp only [TempRestored, hbuf, Option.mem_def, Option.some.injEq, forall_eq', ne_eq,
    or_iff_not_imp_left]

theorem registeredRestored_iff {m m' : TeeSharedMemory}
    (hm : ms.find? (fun x => x.id = p.memid) = some m)
    (hm' : ms.find? (fun x => x.tzId = m.tzId) = some m') :
    RegisteredRestored l ms i t p ↔ m'.id = p.memid ∧
      (t = .memrefPartialInput ∨ (l.param i).copiedOut = true) ∧ memoryCopy t m' = memoryCopy t m := by
  have hfound : RegisteredRestored l ms i t p ↔ m'.id = p.memid ∧ (t ≠ .memrefPartialInput →
      (l.param i).copiedOut = true ∧ m'.userAddr = m.userAddr ∧ m'.comVaddr = m.comVaddr ∧
        m'.size = m.size) := by
    constructor
    · rintro ⟨x, x', hx, hx', h⟩
      obtain rfl := Option.some.inj (hx.symm.trans hm)
      obtain rfl := Option.some.inj (hx'.symm.trans hm')
      exact h
    · exact fun h => ⟨m, m', hm, hm', h⟩
  rw [hfound]
  by_cases hin : t = .memrefPartialInput
  · simp [hin, memoryCopy]
  · simp [hin, memoryCopy]

/-- **When the references come back**, the outputs are copied and the temporary memories are freed. -/
theorem fromTz_iff (htaken : Taken l ms i ps ps' new) (hms : s.memories = ms)
    (htemps : s.temps = T ++ kept new) (hlive : s.live = L ++ addresses new)
    (hnodup : (addresses new).Nodup) (hT : ∀ a ∈ addresses new, a ∉ T.map TeeTmpMemory.ptr)
    (hL : ∀ a ∈ addresses new, a ∉ L) :
    GivesBack l i ps ps' (outputs l ms i ps) L s ↔ ParamsRestored l T ms i ps := by
  induction htaken generalizing s with
  | nil i =>
    refine ⟨fun _ => trivial, fun _ => ⟨_, rfl, .nil, (List.append_nil _).symm, ?_⟩⟩
    exact hlive.trans (List.append_nil _)
  | @temp i t p ps ps' new ptr vaddr ht hentry hbuf rest ih =>
    set m : TeeTmpMemory := ⟨ptr, p.buffer, vaddr, l.virtToPhys vaddr, p.size⟩ with hm
    have hptr : m.ptr ∈ addresses (((l.param i).node, m) :: new) := List.mem_cons_self
    have hin : m.ptr ∈ s.live := hlive ▸ List.mem_append_right _ hptr
    have hout : outputOf l ms i (t, p) = tempCopy t m := by
      simp only [outputOf, if_pos ht, tempCopy, hbuf, hm]
      rfl
    have hrestored : ParamsRestored l T ms i ((t, p) :: ps) ↔
        TempRestored l T i t ∧ ParamsRestored l T ms (i + 1) ps := by
      simp [ParamsRestored, ht]
    rw [outputs, hout, hrestored, tempRestored_iff hbuf]
    cases hnode : (l.param i).node with
    | false =>
      -- the list does not have it, and it is lost
      refine iff_of_false (not_givesBack (hL _ hptr) fun r hr => fromTz_lost hr hin ?_) nofun
      rw [htemps, hnode, List.map_append, List.mem_append]
      rintro (h | h)
      · exact hT _ hptr h
      · exact (List.nodup_cons.mp hnodup).1 (kept_ptr_subset h)
    | true =>
      rw [hnode] at htemps hlive hT hL hptr hnodup
      by_cases hold : ∀ x ∈ T, x.comPaddr ≠ l.virtToPhys vaddr
      · have hround := paramFromTz_temp (l := l) (i := i) (s := s)
          (p := withRef p (l.virtToPhys vaddr)) ht (htemps ▸ find_temp new (m := m) hold)
        by_cases hok : t = .memrefTempInput ∨ (l.param i).copiedOut = true
        · rw [if_pos hok] at hround
          obtain ⟨htemps', hlive'⟩ := free_temp (s := { s with copies := s.copies ++ tempCopy t m })
            htemps hlive (hT _ hptr) (hL _ hptr)
          have hrest := ih (s := teeTmpMemFree m { s with copies := s.copies ++ tempCopy t m }) hms htemps'
            hlive' (List.nodup_cons.mp hnodup).2 (fun a ha => hT a (List.mem_cons_of_mem _ ha))
            fun a ha => hL a (List.mem_cons_of_mem _ ha)
          rw [givesBack_cons ps ps' p L _ hround rfl, hrest]
          exact ⟨fun h => ⟨⟨rfl, hold, hok⟩, h.2⟩, fun h => ⟨fun _ => rfl, h.2⟩⟩
        · rw [if_neg hok] at hround
          refine iff_of_false (not_givesBack (hL _ hptr) fun r hr => ?_) fun h => hok h.1.2.2
          rw [paramLoop_error hround hr]
          exact hin
      · refine iff_of_false ?_ fun h => hold h.1.2.1
        obtain ⟨o, ho, hpaddr⟩ : ∃ o ∈ T, o.comPaddr = l.virtToPhys vaddr := by
          by_contra hno
          exact hold fun x hx he => hno ⟨x, hx, he⟩
        obtain ⟨y, hy, -⟩ := exists_find_of_mem (p := fun x : TeeTmpMemory => x.comPaddr = l.virtToPhys vaddr) ho
          (decide_eq_true hpaddr)
        refine not_givesBack_of_older rest ht hlive hT hL (List.mem_of_find?_eq_some hy) ?_
        rw [htemps, List.find?_append]
        exact (congrArg (Option.or · _) hy).trans rfl
  | @registered i t p ps ps' new mem ht hreg hmem rest ih =>
    obtain ⟨m', hm', -⟩ := exists_find_of_mem (p := fun x : TeeSharedMemory => x.tzId = mem.tzId)
      (List.mem_of_find?_eq_some hmem) (decide_eq_true rfl)
    have hround := paramFromTz_registered (l := l) (i := i) (s := s) (p := withRef p mem.tzId) ht hreg
      (hms ▸ hm')
    have hout : outputOf l ms i (t, p) = memoryCopy t mem := by
      simp only [outputOf, ht, Bool.false_eq_true, if_false, if_pos hreg, hmem, memoryCopy]
      rfl
    have hrestored : ParamsRestored l T ms i ((t, p) :: ps) ↔
        RegisteredRestored l ms i t p ∧ ParamsRestored l T ms (i + 1) ps := by
      simp [ParamsRestored, ht, hreg]
    rw [outputs, hout, hrestored, registeredRestored_iff hmem hm']
    by_cases hok : t = .memrefPartialInput ∨ (l.param i).copiedOut = true
    · rw [if_pos hok] at hround
      by_cases hcopy : memoryCopy t m' = memoryCopy t mem
      · rw [hcopy] at hround
        rw [givesBack_cons ps ps' p L _ hround rfl]
        rw [ih (s := { s with copies := s.copies ++ memoryCopy t mem }) hms htemps hlive hnodup hT hL]
        simp [hok, hreg, hcopy, withRef, TeecParamter.memid]
      · -- another memory was copied
        refine iff_of_false ?_ fun h => hcopy h.1.2.2
        rintro ⟨r, hr, -, hcopies, -⟩
        obtain ⟨r', hr', hd⟩ := paramLoop_next hround hr
        obtain ⟨w, hw⟩ := fromTz_copies hr'
        rw [hd, hcopies] at hw
        have hlen : (memoryCopy t mem).length = (memoryCopy t m').length := by
          rw [memoryCopy, memoryCopy]
          split <;> rfl
        have hmine := List.append_cancel_left (hw.trans (List.append_assoc _ _ _))
        exact hcopy (List.append_inj_left hmine hlen).symm
    · rw [if_neg hok] at hround
      refine iff_of_false ?_ fun h => hok h.1.2.1
      rintro ⟨r, hr, -, hcopies, -⟩
      rw [paramLoop_error hround hr, memoryCopy, if_neg (fun h => hok (.inl h))] at hcopies
      simp at hcopies
  | @value i t p ps ps' new ht hreg p' rest ih =>
    have hbody : paramFromTz l i t p' s = some ⟨none, p', s⟩ := by
      rw [paramFromTz, if_neg (by simp [ht]), if_neg (by simp [hreg])]
    have hout : outputOf l ms i (t, p) = [] := by
      rw [outputOf, if_neg (by simp [ht]), if_neg (by simp [hreg])]
    rw [outputs, hout, givesBack_cons ps ps' p L _ hbody (List.append_nil _).symm,
      ih hms htemps hlive hnodup hT hL, ParamsRestored]
    simp [ht, hreg]

end Restored

/-! ## 5. References that nothing brings back -/

/-- A parameter that is as before and asks for nothing: a registered input with the same id on both
sides, or a value. -/
def Untouched (ms : List TeeSharedMemory) (x : TeecType × TeecParamter) : Prop :=
  x.1.isTemp = false ∧ (x.1.isRegistered = true →
    x.1 = .memrefPartialInput ∧ ∃ m, ms.find? (fun y => y.id = x.2.memid) = some m ∧ m.tzId = x.2.memid)

section Untouched

variable {l : Linux} {ms : List TeeSharedMemory} {i : Nat} {ps ps' : List (TeecType × TeecParamter)}
  {new : List (Bool × TeeTmpMemory)}

theorem untouched_iff (htaken : Taken l ms i ps ps' new) :
    (SameRefs ps ps' ∧ outputs l ms i ps = [] ∧ addresses new = []) ↔ ∀ x ∈ ps, Untouched ms x := by
  induction htaken with
  | nil i => exact ⟨fun _ => nofun, fun _ => ⟨.nil, rfl, rfl⟩⟩
  | temp ht hentry hbuf rest ih =>
    refine iff_of_false (fun h => absurd h.2.2 nofun) fun h => ?_
    have htemp := (h _ List.mem_cons_self).1
    rw [ht] at htemp
    exact absurd htemp nofun
  | @registered i t p ps ps' new mem ht hreg hmem rest ih =>
    have hout : outputOf l ms i (t, p) = memoryCopy t mem := by
      simp only [outputOf, ht, Bool.false_eq_true, if_false, if_pos hreg, hmem, memoryCopy]
      rfl
    have hhead : Untouched ms (t, p) ↔ t = .memrefPartialInput ∧ mem.tzId = p.memid := by
      simp only [Untouched, ht, hreg, hmem, true_and, forall_const, Option.some.injEq, exists_eq_left']
    rw [List.forall_mem_cons, ← ih, hhead, SameRefs, List.forall₂_cons, outputs, hout, List.append_eq_nil_iff]
    by_cases hin : t = .memrefPartialInput
    · simp [hin, memoryCopy, withRef, TeecParamter.memid, SameRefs, TeecType.isRegistered]
      tauto
    · simp [hin, memoryCopy]
  | @value i t p ps ps' new ht hreg p' rest ih =>
    have hout : outputOf l ms i (t, p) = [] := by
      rw [outputOf, if_neg (by simp [ht]), if_neg (by simp [hreg])]
    rw [List.forall_mem_cons, ← ih, SameRefs, List.forall₂_cons, outputs, hout]
    simp [Untouched, ht, hreg, SameRefs]

/-- The addresses come from the parameters. -/
theorem Taken.address_of (htaken : Taken l ms i ps ps' new) {a : Nat} (ha : a ∈ addresses new) :
    ∃ j, i ≤ j ∧ (l.param j).entry = some a := by
  induction htaken with
  | nil i => exact absurd ha List.not_mem_nil
  | @temp i t p ps ps' new ptr vaddr ht hentry hbuf rest ih =>
    obtain rfl | ha := List.mem_cons.mp ha
    · exact ⟨i, le_rfl, hentry⟩
    · obtain ⟨j, hj, hentry⟩ := ih ha
      exact ⟨j, Nat.le_of_succ_le hj, hentry⟩
  | registered ht hreg hmem rest ih =>
    obtain ⟨j, hj, hentry⟩ := ih ha
    exact ⟨j, Nat.le_of_succ_le hj, hentry⟩
  | value ht hreg p' rest ih =>
    obtain ⟨j, hj, hentry⟩ := ih ha
    exact ⟨j, Nat.le_of_succ_le hj, hentry⟩

theorem Taken.nodup (htaken : Taken l ms i ps ps' new)
    (hdiff : ∀ j k a, (l.param j).entry = some a → (l.param k).entry = some a → j = k) :
    (addresses new).Nodup := by
  induction htaken with
  | nil i => exact List.nodup_nil
  | @temp i t p ps ps' new ptr vaddr ht hentry hbuf rest ih =>
    refine List.nodup_cons.mpr ⟨fun hin => ?_, ih⟩
    obtain ⟨j, hj, hentry'⟩ := rest.address_of hin
    exact absurd (hdiff i j ptr hentry hentry') (Nat.ne_of_lt hj)
  | registered ht hreg hmem rest ih => exact ih
  | value ht hreg p' rest ih => exact ih

end Untouched

end AndixOs.Driver
