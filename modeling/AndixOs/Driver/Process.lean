/-
# The blocks of a request

`tee_process` takes three blocks of pages for a request: one for the `TZ_TEE_SPACE`, one for control
requests and one for the package that names the two.  If the trustlet needs the normal world,
`tz_process_ctrl_mem` goes round with the service daemon, and takes a new block for the answer every
time.

Here a path through the two is what happens to the blocks, in order (`Lib.Owned`).

* `ctrlRounds_track`: rounds that get their blocks give all of them back;
* `ctrlRounds_use_after_free`: a later round that gets none goes on with the block it has just freed;
* `teeProcess_balanced_iff`: the paths that free what they take, and use it no more.
-/
import AndixOs.Lib.Owned

namespace AndixOs.Driver.Pages

open AndixOs

/-! ## 1. `tee_logic.c` -/

/-- The `op_event`s. -/
inductive OpEvent where
  | teeCtxInit
  | teeCtxFinalize
  | teeMemReg
  | teeMemRel
  | teeSessionOpen
  | teeSessionClose
  | teeInvoke
  deriving DecidableEq

/-- The event of an operation, from `TZ_TEE_OP_INIT_CTX` to `TZ_TEE_OP_INVOKE_CMD`. -/
def opEvent (op : UInt32) : Option OpEvent :=
  match op.toNat with
  | 0x01 => some .teeCtxInit
  | 0x02 => some .teeCtxFinalize
  | 0x03 => some .teeMemReg
  | 0x05 => some .teeMemRel
  | 0x06 => some .teeSessionOpen
  | 0x07 => some .teeSessionClose
  | 0x08 => some .teeInvoke
  | _ => none

/-- What a request meets.

* `teePages`, `ctrlPages`, `packagePages`: what the three `allocate_mapable_memory` return, `none` for
  `NULL`
* `op`: the operation in the `TZ_TEE_SPACE` of the client
* `pre`, `post`: whether a handler returns `TEE_EVENT_RET_SUCCESS`
* `rounds`: for each time that `package->result` is `CTRL_STRUCT`, what `allocate_mapable_memory`
  returns
* `tzResult`: the result of the last `__smc_1` -/
structure RequestEnv where
  teePages : Option Nat
  ctrlPages : Option Nat
  packagePages : Option Nat
  op : UInt32
  pre : OpEvent → Bool
  post : OpEvent → Bool
  rounds : List (Option Nat)
  tzResult : Int

/-- What happened to the blocks, and the result; there is none where the kernel stops. -/
structure Path where
  log : List (BlockEvent Nat)
  result : Option Int
  deriving DecidableEq

/-- `ctrl_pages_1`, `ctrlspace_1` and `ctrlspace_2`. -/
structure CtrlLoop where
  ctrlPages1 : Option Nat
  ctrlspace1 : Nat
  ctrlspace2 : Option Nat

/-- `free_mapable_memory`, which does nothing for `NULL`. -/
def freeMapable (sharedPages : Option Nat) : List (BlockEvent Nat) := sharedPages.toList.map .free

/-- The loop of `tz_process_ctrl_mem` from here on, and whether it ends.  `allocate_mapable_memory`
leaves `ctrlspace_2` as it is where it fails, and a `memcpy` to `NULL` ends everything. -/
def ctrlRounds (tee package : Nat) (s : CtrlLoop) : List (Option Nat) → List (BlockEvent Nat) × Bool
  | [] => (freeMapable s.ctrlPages1, true)
  | pages :: rounds =>
    -- the daemon works on `ctrlspace_1`, then there is a block for its answer
    let begun := .access s.ctrlspace1 :: pages.toList.map .alloc
    match pages.or s.ctrlspace2 with
    | none => (begun, false)
    | some ctrlspace2 =>
      let rest := ctrlRounds tee package ⟨pages, ctrlspace2, some ctrlspace2⟩ rounds
      (begun ++ [.access ctrlspace2, .access s.ctrlspace1] ++ freeMapable s.ctrlPages1 ++
        [.access package, .access tee, .access ctrlspace2] ++ rest.1, rest.2)

/-- `tz_process_ctrl_mem`. -/
def tzProcessCtrlMem (tee ctrl package : Nat) (rounds : List (Option Nat)) :
    List (BlockEvent Nat) × Bool :=
  ctrlRounds tee package ⟨none, ctrl, none⟩ rounds

/-- `err_ret`, with what is written to `teemem->ret` before it. -/
def errRet (tee ctrl : Nat) : List (BlockEvent Nat) :=
  [.access tee, .free ctrl, .free tee, .access tee]

/-- The end of a request that went well; `send_to_user` comes last. -/
def okRet (tee ctrl : Nat) : List (BlockEvent Nat) := [.free tee, .free ctrl, .access tee]

/-- The blocks are cleared, the package is filled in, and the request comes from the client. -/
def prepare (tee ctrl package : Nat) : List (BlockEvent Nat) :=
  [.access ctrl, .access tee, .access package, .access package, .access tee]

/-- The secure world works on a package. -/
def smcProcessTmem (tee ctrl package : Nat) : List (BlockEvent Nat) :=
  [.access package, .access tee, .access ctrl]

/-- What the trustlet wants of the normal world. -/
def answerCtrl (e : RequestEnv) (tee ctrl package : Nat) : List (BlockEvent Nat) × Bool :=
  if e.rounds.isEmpty then ([], true) else tzProcessCtrlMem tee ctrl package e.rounds

/-- `tee_process` behind the three allocations. -/
def teeProcessBody (e : RequestEnv) (tee ctrl package : Nat) : Path :=
  let begun := prepare tee ctrl package
  match opEvent e.op with
  | none => ⟨begun ++ errRet tee ctrl, some (-1)⟩
  | some event =>
    if e.pre event = false then ⟨begun ++ [.access tee] ++ errRet tee ctrl, some (-1)⟩
    else
      let called := begun ++ [.access tee] ++ smcProcessTmem tee ctrl package
      let ctrlMem := answerCtrl e tee ctrl package
      if ctrlMem.2 = false then ⟨called ++ ctrlMem.1, none⟩
      else if e.post event = false then
        ⟨called ++ ctrlMem.1 ++ [.access tee] ++ errRet tee ctrl, some (-1)⟩
      else ⟨called ++ ctrlMem.1 ++ [.access tee] ++ okRet tee ctrl, some e.tzResult⟩

/-- `tee_process`. -/
def teeProcess (e : RequestEnv) : Path :=
  match e.teePages with
  | none => ⟨[], some (-1)⟩
  | some tee =>
    match e.ctrlPages with
    | none => ⟨[.alloc tee, .free tee], some (-1)⟩
    | some ctrl =>
      match e.packagePages with
      | none => ⟨[.alloc tee, .alloc ctrl, .free tee, .free ctrl], some (-1)⟩
      | some package =>
        let body := teeProcessBody e tee ctrl package
        ⟨[.alloc tee, .alloc ctrl, .alloc package] ++ body.log, body.result⟩

/-- The path comes to its return, and every block is freed once and not used after that. -/
def Path.Balanced (p : Path) : Prop := p.result.isSome = true ∧ AndixOs.Balanced p.log

/-! ## 2. The rounds of `tz_process_ctrl_mem` -/

section Rounds

variable {tee package : Nat} {live : List Nat} {s : CtrlLoop} {rounds : List (Option Nat)}

/-- The block of the last round is behind the other ones. -/
def CtrlLoop.Held (s : CtrlLoop) (live : List Nat) : Prop :=
  (s.ctrlPages1 = none ∧ s.ctrlspace1 ∈ live) ∨ s.ctrlPages1 = some s.ctrlspace1

/-- What is held between two rounds. -/
def CtrlLoop.holding (s : CtrlLoop) (live : List Nat) : List Nat := s.ctrlPages1.toList ++ live

theorem CtrlLoop.Held.mem (h : s.Held live) : s.ctrlspace1 ∈ s.holding live := by
  obtain ⟨hnone, hmem⟩ | hsome := h
  · exact List.mem_append_right _ hmem
  · rw [CtrlLoop.holding, hsome]
    exact List.mem_cons_self

/-- The block of the last round is freed behind that of this one. -/
theorem track_freeMapable (pages : Option Nat) (log : List (BlockEvent Nat)) (b : Nat) :
    track (b :: (pages.toList ++ live)) (freeMapable pages ++ log) = track (b :: live) log := by
  cases pages with
  | none => rfl
  | some c =>
    have hmem : c ∈ b :: c :: live := List.mem_cons_of_mem _ List.mem_cons_self
    have herase : (b :: c :: live).erase c = b :: live := by
      by_cases hbc : b = c
      · rw [hbc, List.erase_cons_head]
      · rw [List.erase_cons_tail (by simpa using hbc), List.erase_cons_head]
    exact (track_free hmem).trans (congrArg (track · log) herase)

/-- **A round that gets its block** holds that and no other one behind it. -/
theorem ctrlRound_track (htee : tee ∈ live) (hpackage : package ∈ live) (hheld : s.Held live) (b : Nat)
    (log : List (BlockEvent Nat)) :
    track (s.holding live) (.access s.ctrlspace1 :: .alloc b :: .access b :: .access s.ctrlspace1 ::
      (freeMapable s.ctrlPages1 ++ .access package :: .access tee :: .access b :: log)) =
      track (b :: live) log := by
  have hb : b ∈ b :: s.holding live := List.mem_cons_self
  rw [track_access hheld.mem, track_alloc, track_access hb,
    track_access (List.mem_cons_of_mem _ hheld.mem), CtrlLoop.holding, track_freeMapable,
    track_access (List.mem_cons_of_mem _ hpackage), track_access (List.mem_cons_of_mem _ htee),
    track_access List.mem_cons_self]

/-- **Rounds that get their blocks** end, and give all of them back. -/
theorem ctrlRounds_track (htee : tee ∈ live) (hpackage : package ∈ live)
    (hsome : ∀ pages ∈ rounds, pages.isSome = true) (hheld : s.Held live) :
    track (s.holding live) (ctrlRounds tee package s rounds).1 = some live ∧
      (ctrlRounds tee package s rounds).2 = true := by
  induction rounds generalizing s with
  | nil =>
    refine ⟨?_, rfl⟩
    rw [ctrlRounds, CtrlLoop.holding]
    cases s.ctrlPages1 with
    | none => rfl
    | some b =>
      have hfree : track (b :: live) [.free b] = track ((b :: live).erase b) [] :=
        track_free List.mem_cons_self
      rw [List.erase_cons_head] at hfree
      exact hfree
  | cons pages rounds ih =>
    obtain ⟨b, rfl⟩ := Option.isSome_iff_exists.mp (hsome pages List.mem_cons_self)
    obtain ⟨hlog, hend⟩ := ih (s := ⟨some b, b, some b⟩)
      (fun p hp => hsome p (List.mem_cons_of_mem _ hp)) (Or.inr rfl)
    rw [ctrlRounds]
    refine ⟨?_, hend⟩
    have hround := ctrlRound_track htee hpackage hheld b
      (ctrlRounds tee package ⟨some b, b, some b⟩ rounds).1
    simpa using hround.trans hlog

/-- **A later round that gets no block** copies the block of the round before it to itself, frees it and
goes on with it. -/
theorem ctrlRounds_use_after_free {b : Nat} (htee : tee ∈ live) (hpackage : package ∈ live)
    (hb : b ∉ live) :
    track (b :: live) (ctrlRounds tee package ⟨some b, b, some b⟩ (none :: rounds)).1 = none := by
  have hmem : b ∈ b :: live := List.mem_cons_self
  have hlog : (ctrlRounds tee package ⟨some b, b, some b⟩ (none :: rounds)).1 =
      .access b :: .access b :: .access b :: .free b :: .access package :: .access tee :: .access b ::
        (ctrlRounds tee package ⟨none, b, some b⟩ rounds).1 := by
    simp [ctrlRounds, freeMapable]
  rw [hlog, track_access hmem, track_access hmem, track_access hmem, track_free hmem,
    List.erase_cons_head, track_access hpackage, track_access htee, track_access_of_not_mem hb]

/-- Whatever the rounds get, each block is freed when the next one is there or at the end. -/
theorem ctrlRounds_surplus (hend : (ctrlRounds tee package s rounds).2 = true) :
    surplus (ctrlRounds tee package s rounds).1 = -(s.ctrlPages1.toList.length : Int) := by
  have hfree : ∀ pages : Option Nat, surplus (freeMapable pages) = -(pages.toList.length : Int) := by
    intro pages
    cases pages <;> rfl
  induction rounds generalizing s with
  | nil => exact hfree s.ctrlPages1
  | cons pages rounds ih =>
    rw [ctrlRounds] at hend ⊢
    cases hspace : pages.or s.ctrlspace2 with
    | none =>
      rw [hspace] at hend
      exact absurd hend Bool.false_ne_true
    | some c =>
      rw [hspace] at hend
      have hrest := ih (s := ⟨pages, c, some c⟩) hend
      have halloc : surplus (pages.toList.map BlockEvent.alloc) = (pages.toList.length : Int) := by
        cases pages <;> rfl
      simp [hfree, hrest, halloc]

end Rounds

/-! ## 3. The paths -/

section Paths

variable {e : RequestEnv} {tee ctrl package : Nat}

theorem answerCtrl_surplus (hend : (answerCtrl e tee ctrl package).2 = true) :
    surplus (answerCtrl e tee ctrl package).1 = 0 := by
  rw [answerCtrl] at hend ⊢
  split
  · rfl
  · rename_i hrounds
    rw [if_neg hrounds] at hend
    exact ctrlRounds_surplus hend

/-- Behind the allocations two blocks are freed, besides those of the rounds. -/
theorem teeProcessBody_surplus (hend : (teeProcessBody e tee ctrl package).result.isSome = true) :
    surplus (teeProcessBody e tee ctrl package).log = -2 := by
  unfold teeProcessBody at hend ⊢
  cases hevent : opEvent e.op with
  | none => rfl
  | some event =>
    simp only [hevent] at hend ⊢
    by_cases hpre : e.pre event = false
    · simp only [if_pos hpre]
      rfl
    · simp only [if_neg hpre] at hend ⊢
      by_cases hstop : (answerCtrl e tee ctrl package).2 = false
      · simp only [if_pos hstop] at hend
        exact absurd hend Bool.false_ne_true
      · simp only [if_neg hstop]
        have hzero := answerCtrl_surplus (Bool.not_eq_false _ ▸ hstop)
        by_cases hpost : e.post event = false
        · simp [hpost, hzero, prepare, smcProcessTmem, errRet]
        · simp [hpost, hzero, prepare, smcProcessTmem, okRet]

theorem teeCtrl_balanced (tee ctrl : Nat) :
    AndixOs.Balanced [.alloc tee, .alloc ctrl, .free tee, .free ctrl] := by
  have hmem : tee ∈ [ctrl, tee] := List.mem_cons_of_mem _ (List.mem_singleton_self tee)
  have herase : [ctrl, tee].erase tee = [ctrl] := by
    by_cases hsame : ctrl = tee
    · rw [hsame, List.erase_cons_head]
    · rw [List.erase_cons_tail (by simpa using hsame), List.erase_cons_head]
  rw [AndixOs.Balanced, track_alloc, track_alloc, track_free hmem, herase,
    track_free (List.mem_singleton_self ctrl), List.erase_cons_head, track_nil]

/-- **The paths that are right** are those on which one of the three blocks is not to be had.  On any
other one the block of the package is never freed. -/
theorem teeProcess_balanced_iff (e : RequestEnv) :
    (teeProcess e).Balanced ↔ e.teePages = none ∨ e.ctrlPages = none ∨ e.packagePages = none := by
  rw [teeProcess]
  cases htee : e.teePages with
  | none => exact iff_of_true ⟨rfl, rfl⟩ (Or.inl rfl)
  | some tee =>
    cases hctrl : e.ctrlPages with
    | none =>
      refine iff_of_true ⟨rfl, ?_⟩ (Or.inr (Or.inl rfl))
      have hmem : tee ∈ [tee] := List.mem_singleton_self tee
      rw [AndixOs.Balanced, track_alloc, track_free hmem, List.erase_cons_head, track_nil]
    | some ctrl =>
      cases hpackage : e.packagePages with
      | none =>
        refine iff_of_true ⟨rfl, ?_⟩ (Or.inr (Or.inr rfl))
        exact teeCtrl_balanced tee ctrl
      | some package =>
        refine iff_of_false ?_ (by simp)
        rintro ⟨hend, hbal⟩
        have hbody := teeProcessBody_surplus hend
        have hzero := hbal.surplus_eq
        have hthree : surplus [.alloc tee, .alloc ctrl, .alloc package] = 3 := rfl
        rw [surplus_append, hbody, hthree] at hzero
        exact absurd hzero (by decide)

/-- A request for a context that gets its blocks, 1, 2 and 3, and meets no error. -/
def initRequest : RequestEnv := ⟨some 1, some 2, some 3, 0x01, fun _ => true, fun _ => true, [], 0⟩

/-- **A request that goes well** sends a block that has been freed, and leaves that of the package. -/
theorem request_leaks_package :
    (teeProcess initRequest).result = some 0 ∧
      track [] (teeProcess initRequest).log = none ∧
      (teeProcess initRequest).log.getLast? = some (.access 1) ∧
      track [] (teeProcess initRequest).log.dropLast = some [3] ∧
      ¬(teeProcess initRequest).Balanced := by
  have hwrong : track [] (teeProcess initRequest).log = none := by decide
  refine ⟨rfl, hwrong, by decide, by decide, ?_⟩
  rintro ⟨-, hbal⟩
  exact absurd (hwrong.symm.trans hbal) nofun

end Paths

end AndixOs.Driver.Pages
