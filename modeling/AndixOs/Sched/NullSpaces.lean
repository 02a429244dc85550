/-
# The spaces of the non-secure world while they are `NULL`

The monitor keeps `package`, `tee_mem` and `com_mem`, which `set_tz_package` sets all at once and
clears all at once.  The handlers are called in any order, and use them on three paths:
`SSC_NONS_SERVICE` writes to the package without a check; `SMC_PROCESS_CMEM` checks `com_mem`, but
only after its debug output has read through it; and a package whose address does not translate
leaves the old spaces in place, so that the request is taken as one for them.

`spacesSafe_iff` says exactly which calls end well, and `everyCall_spacesSafe_iff` which sequences of
calls do.
-/
import AndixOs.Monitor.Nonsecure
import AndixOs.Sched.Restore

namespace AndixOs.Sched

open AndixOs.Task AndixOs.Monitor

/-! ## 1. What is promised -/

/-- `set_tz_package` returns -1. -/
def Refused (tz : TzState) (a : PackageAddrs) : Prop :=
  ∃ r tz', setTzPackage tz a.package.toNat a.tee.toNat a.ctrl.toNat = some (r, tz') ∧ r ≠ 0

/-- The handler goes back to its caller, with -1 in `r0`. -/
def Answered (s s' : SecureWorld) : Prop := s'.log = s.log ∧ s'.regs = s.regs.setR 0 0xFFFFFFFF

/-- A request of the non-secure world with a package. -/
def PackageCall (regs : MonContext) : Prop :=
  regs.scr &&& 1 ≠ 0 ∧ (regs.r 12 = smcProcessCmem ∨ regs.r 12 = smcProcessTmem)

/-- No handler reads or writes through a space that is `NULL`, and a package that cannot be mapped
is answered with an error. -/
structure HandlerSafe (s : SecureWorld) (a : PackageAddrs) : Prop where
  noNull : ∀ e, monSmcHandler s a = .error e → e ≠ .nullPackage ∧ e ≠ .nullComMem
  answered : PackageCall s.regs → Refused s.tz a → ∃ s', monSmcHandler s a = .ok s' ∧ Answered s s'

def SpacesSafe (s : SecureWorld) : SwitchCall → Prop
  | .smc regs banked userTable a => HandlerSafe (s.enter regs banked userTable) a
  | _ => True

/-- A control space comes with a package that can be mapped, or with an address that does not
translate while there is an old control space and no service thread. -/
def CmemMeets (s : SecureWorld) (a : PackageAddrs) : Prop :=
  Refused s.tz a → a.package = 0 ∧ s.tz.comMem ≠ 0 ∧ s.current ≠ none ∧ s.service = none

/-- A TEE space comes with an address that translates, or there is no old TEE space or no TEE
thread. -/
def TmemMeets (s : SecureWorld) (a : PackageAddrs) : Prop :=
  Refused s.tz a → a.package = 0 → s.tz.teeMem = 0 ∨ s.tee = none

/-- The condition on an SMC. -/
def HandlerMeets (s : SecureWorld) (a : PackageAddrs) : Prop :=
  (s.regs.scr &&& 1 ≠ 0 → s.regs.r 12 = smcProcessCmem → CmemMeets s a) ∧
    (s.regs.scr &&& 1 ≠ 0 → s.regs.r 12 = smcProcessTmem → TmemMeets s a) ∧
    (s.regs.scr &&& 1 = 0 → s.regs.r 12 = sscNonsService → s.tz.package ≠ 0)

def SpacesMeet (s : SecureWorld) : SwitchCall → Prop
  | .smc regs banked userTable a => HandlerMeets (s.enter regs banked userTable) a
  | _ => True

variable {s s' s1 : SecureWorld} {a : PackageAddrs} {tz tz' : TzState} {r : Int}
  {p t c : Nat}

/-! ## 2. `set_tz_package` -/

/-- `free_tz_package` leaves all three `NULL`. -/
theorem freeTzPackage_unmapped (h : freeTzPackage tz = some tz') : tz'.Unmapped := by
  obtain ⟨tz1, h1, h⟩ := Option.bind_eq_some_iff.mp h
  obtain ⟨tz2, h2, h3⟩ := Option.bind_eq_some_iff.mp h
  have hp1 : tz1.package = 0 := by
    unfold freeTzPackageOnly at h1
    split at h1
    · obtain ⟨k, -, rfl⟩ := Option.map_eq_some_iff.mp h1
      rfl
    · rename_i hp
      obtain rfl := Option.some.inj h1
      exact not_not.mp hp
  have ht2 : tz2.package = 0 ∧ tz2.teeMem = 0 := by
    unfold freeTzTeeMemory at h2
    split at h2
    · obtain ⟨k, -, rfl⟩ := Option.map_eq_some_iff.mp h2
      exact ⟨hp1, rfl⟩
    · rename_i ht
      obtain rfl := Option.some.inj h2
      exact ⟨hp1, not_not.mp ht⟩
  unfold freeTzCommunicationMemory at h3
  split at h3
  · obtain ⟨k, -, rfl⟩ := Option.map_eq_some_iff.mp h3
    exact ⟨ht2.1, ht2.2, rfl⟩
  · rename_i hc
    obtain rfl := Option.some.inj h3
    exact ⟨ht2.1, ht2.2, not_not.mp hc⟩

/-- `set_tz_tee_memory` says whether the space is `NULL`. -/
theorem setTzTeeMemory_null {ptr : Nat} (h : setTzTeeMemory tz ptr = some (r, tz')) :
    r = 0 ↔ tz'.teeMem ≠ 0 := by
  obtain ⟨tz1, -, heq⟩ := Option.bind_eq_some_iff.mp h
  obtain ⟨rfl, rfl⟩ := Prod.mk.inj (Option.some.inj heq)
  dsimp only
  split <;> simp_all

/-- `set_tz_communication_memory` says whether the space is `NULL`, and leaves the other one. -/
theorem setTzCommunicationMemory_null {ptr : Nat}
    (h : setTzCommunicationMemory tz ptr = some (r, tz')) :
    (r = 0 ↔ tz'.comMem ≠ 0) ∧ tz'.teeMem = tz.teeMem := by
  obtain ⟨tz1, hfree, heq⟩ := Option.bind_eq_some_iff.mp h
  obtain ⟨rfl, rfl⟩ := Prod.mk.inj (Option.some.inj heq)
  constructor
  · dsimp only
    split <;> simp_all
  · unfold freeTzCommunicationMemory at hfree
    split at hfree
    · obtain ⟨k, -, rfl⟩ := Option.map_eq_some_iff.mp hfree
      rfl
    · obtain rfl := Option.some.inj hfree
      rfl

/-- **`set_tz_package`** sets both spaces, or clears both, or leaves all as it was when the address
does not translate. -/
theorem setTzPackage_null (h : setTzPackage tz p t c = some (r, tz')) :
    r = 0 ∧ p ≠ 0 ∧ tz'.teeMem ≠ 0 ∧ tz'.comMem ≠ 0 ∨
      r ≠ 0 ∧ p = 0 ∧ tz' = tz ∨ r ≠ 0 ∧ p ≠ 0 ∧ tz'.teeMem = 0 ∧ tz'.comMem = 0 := by
  unfold setTzPackage at h
  split at h
  · rename_i hp
    obtain ⟨rfl, rfl⟩ := Prod.mk.inj (Option.some.inj h)
    exact Or.inr (Or.inl ⟨by decide, hp, rfl⟩)
  rename_i hp
  obtain ⟨tz1, hfree, h⟩ := Option.bind_eq_some_iff.mp h
  have hun := freeTzPackage_unmapped hfree
  have hback : ∀ {tz2 : TzState},
      (freeTzPackage tz2).bind (fun tz => some ((-1 : Int), tz)) = some (r, tz') →
      r ≠ 0 ∧ p ≠ 0 ∧ tz'.teeMem = 0 ∧ tz'.comMem = 0 := by
    intro tz2 hb
    obtain ⟨tz3, htz3, heq⟩ := Option.bind_eq_some_iff.mp hb
    obtain ⟨rfl, rfl⟩ := Prod.mk.inj (Option.some.inj heq)
    obtain ⟨-, htee, hcom⟩ := freeTzPackage_unmapped htz3
    exact ⟨by decide, hp, htee, hcom⟩
  simp only at h
  split at h
  · obtain ⟨rfl, rfl⟩ := Prod.mk.inj (Option.some.inj h)
    exact Or.inr (Or.inr ⟨by decide, hp, hun.2⟩)
  split at h
  · exact Or.inr (Or.inr (hback h))
  obtain ⟨⟨r1, tz2⟩, hset1, h⟩ := Option.bind_eq_some_iff.mp h
  simp only at h
  split at h
  · exact Or.inr (Or.inr (hback h))
  rename_i hr1
  split at h
  · exact Or.inr (Or.inr (hback h))
  obtain ⟨⟨r2, tz3⟩, hset2, h⟩ := Option.bind_eq_some_iff.mp h
  obtain ⟨hcom, htee⟩ := setTzCommunicationMemory_null hset2
  simp only at h
  split at h
  · exact Or.inr (Or.inr (hback h))
  rename_i hr2
  obtain ⟨rfl, rfl⟩ := Prod.mk.inj (Option.some.inj h)
  refine Or.inl ⟨rfl, hp, ?_, hcom.mp (not_not.mp hr2)⟩
  rw [htee]
  exact (setTzTeeMemory_null hset1).mp (not_not.mp hr1)

/-- The four ways in which the call in the handlers ends. -/
theorem handlerSetTzPackage_cases (s : SecureWorld) (a : PackageAddrs) :
    (handlerSetTzPackage s a = .error .noReturn ∧ ¬ Refused s.tz a) ∨
      (∃ tz, handlerSetTzPackage s a = .ok { s with tz := tz } ∧ ¬ Refused s.tz a ∧
        tz.teeMem ≠ 0 ∧ tz.comMem ≠ 0) ∨
      (handlerSetTzPackage s a = .ok s ∧ Refused s.tz a ∧ a.package = 0) ∨
      ∃ tz, handlerSetTzPackage s a = .ok { s with tz := tz } ∧ Refused s.tz a ∧ a.package ≠ 0 ∧
        tz.teeMem = 0 ∧ tz.comMem = 0 := by
  unfold handlerSetTzPackage
  cases hset : setTzPackage s.tz a.package.toNat a.tee.toNat a.ctrl.toNat with
  | none =>
    refine Or.inl ⟨rfl, ?_⟩
    rintro ⟨r, tz', h, -⟩
    exact nomatch hset.symm.trans h
  | some res =>
    obtain ⟨r, tz⟩ := res
    have hzero : a.package.toNat = 0 ↔ a.package = 0 := by
      rw [← UInt32.toNat_inj]
      rfl
    have hrefused : r ≠ 0 → Refused s.tz a := fun hr => ⟨r, tz, hset, hr⟩
    rcases setTzPackage_null hset with ⟨rfl, -, htee, hcom⟩ | ⟨hr, hp, rfl⟩ | ⟨hr, hp, htee, hcom⟩
    · refine Or.inr (Or.inl ⟨tz, rfl, ?_, htee, hcom⟩)
      rintro ⟨r', tz', h, hr'⟩
      exact hr' (Prod.mk.inj (Option.some.inj (hset.symm.trans h))).1.symm
    · exact Or.inr (Or.inr (Or.inl ⟨rfl, hrefused hr, hzero.mp hp⟩))
    · exact Or.inr (Or.inr (Or.inr ⟨tz, rfl, hrefused hr, fun h => hp (hzero.mpr h), htee, hcom⟩))

/-! ## 3. The requests of the non-secure world -/

/-- What a request has to do. -/
def RequestSafe (result : Except Abort SecureWorld) (s : SecureWorld) (a : PackageAddrs) : Prop :=
  (∀ e, result = .error e → e ≠ .nullPackage ∧ e ≠ .nullComMem) ∧
    (Refused s.tz a → ∃ s', result = .ok s' ∧ Answered s s')

/-- A switch is no answer to the caller. -/
theorem not_answered_dispatch {t : Nat} (hlog : s1.log = s.log) :
    ¬ Answered s (dispatchTo s1 (some t)) := by
  rintro ⟨hsame, -⟩
  have hlt := monSecureSwitchContext_log (s1.setState t .ready) t
  have hlen : (s1.setState t .ready).log.length = s.log.length := congrArg List.length hlog
  exact absurd (congrArg List.length hsame) (by rw [hlen] at hlt; exact Nat.ne_of_gt hlt)

theorem requestSafe_of_ok (h : ¬ Refused s.tz a) : RequestSafe (.ok s') s a :=
  ⟨nofun, fun hr => absurd hr h⟩

theorem requestSafe_ok_iff (h : Refused s.tz a) : RequestSafe (.ok s') s a ↔ Answered s s' := by
  constructor
  · rintro ⟨-, hanswer⟩
    obtain ⟨s2, heq, hs2⟩ := hanswer h
    obtain rfl := Except.ok.inj heq
    exact hs2
  · exact fun hs => ⟨nofun, fun _ => ⟨s', rfl, hs⟩⟩

theorem not_requestSafe_error {e : Abort} (h : Refused s.tz a) :
    ¬ RequestSafe (.error e) s a := by
  rintro ⟨-, hanswer⟩
  obtain ⟨s2, heq, -⟩ := hanswer h
  exact nomatch heq

/-- **`SMC_PROCESS_CMEM`** ends well exactly when it meets its condition. -/
theorem processCmem_safe_iff (s : SecureWorld) (a : PackageAddrs) :
    RequestSafe (processCmem s a) s a ↔ CmemMeets s a := by
  unfold processCmem
  rcases handlerSetTzPackage_cases s a with ⟨hset, hok⟩ | ⟨tz, hset, hok, -, hcom⟩ |
    ⟨hset, href, hp⟩ | ⟨tz, hset, href, hp, -, hcom⟩
  · rw [hset]
    refine iff_of_true ⟨fun e he => ?_, fun h => absurd h hok⟩ (fun h => absurd h hok)
    obtain rfl := Except.error.inj he
    decide
  · rw [hset]
    dsimp only
    rw [if_neg hcom]
    refine iff_of_true ?_ (fun h => absurd h hok)
    cases s.current with
    | none =>
      refine ⟨fun e he => ?_, fun h => absurd h hok⟩
      obtain rfl := Except.error.inj he
      decide
    | some c => exact requestSafe_of_ok hok
  · rw [hset]
    dsimp only
    have hiff : CmemMeets s a ↔ s.tz.comMem ≠ 0 ∧ s.current ≠ none ∧ s.service = none :=
      ⟨fun h => (h href).2, fun h _ => ⟨hp, h⟩⟩
    rw [hiff]
    split
    · rename_i hcom
      exact iff_of_false (not_requestSafe_error href) fun h => h.1 hcom
    · rename_i hcom
      cases hcur : s.current with
      | none => exact iff_of_false (not_requestSafe_error href) fun h => h.2.1 rfl
      | some c =>
        dsimp only
        rw [requestSafe_ok_iff href]
        cases hservice : s.service with
        | none => exact iff_of_true ⟨rfl, rfl⟩ ⟨hcom, nofun, rfl⟩
        | some t =>
          exact iff_of_false (not_answered_dispatch rfl) fun h => nomatch h.2.2
  · rw [hset]
    dsimp only
    rw [if_pos hcom]
    exact iff_of_false (not_requestSafe_error href) fun h => hp (h href).1

/-- **`SMC_PROCESS_TMEM`** ends well exactly when it meets its condition. -/
theorem processTmem_safe_iff (s : SecureWorld) (a : PackageAddrs) :
    RequestSafe (processTmem s a) s a ↔ TmemMeets s a := by
  unfold processTmem
  rcases handlerSetTzPackage_cases s a with ⟨hset, hok⟩ | ⟨tz, hset, hok, -, -⟩ |
    ⟨hset, href, hp⟩ | ⟨tz, hset, href, hp, htee, -⟩
  · rw [hset]
    refine iff_of_true ⟨fun e he => ?_, fun h => absurd h hok⟩ (fun h => absurd h hok)
    obtain rfl := Except.error.inj he
    decide
  · rw [hset]
    exact iff_of_true (requestSafe_of_ok hok) fun h => absurd h hok
  · rw [hset]
    dsimp only
    have hiff : TmemMeets s a ↔ s.tz.teeMem = 0 ∨ s.tee = none :=
      ⟨fun h => h href hp, fun h _ _ => h⟩
    rw [hiff, requestSafe_ok_iff href]
    split
    · rename_i htee
      exact iff_of_true ⟨rfl, rfl⟩ (Or.inl htee)
    · rename_i htee
      cases hthread : s.tee with
      | none => exact iff_of_true ⟨rfl, rfl⟩ (Or.inr rfl)
      | some t =>
        exact iff_of_false (not_answered_dispatch rfl) fun h => h.elim htee nofun
  · rw [hset]
    dsimp only
    rw [if_pos htee]
    exact iff_of_true ⟨nofun, fun _ => ⟨_, rfl, rfl, rfl⟩⟩ fun _ h => absurd h hp

/-! ## 4. All calls -/

/-- **`SSC_NONS_SERVICE`** needs a package. -/
theorem nonsService_safe_iff (s : SecureWorld) :
    (∀ e, nonsService s = .error e → e ≠ .nullPackage ∧ e ≠ .nullComMem) ↔
      s.tz.package ≠ 0 := by
  unfold nonsService
  split
  · rename_i hp
    exact iff_of_false (fun h => (h .nullPackage rfl).1 rfl) fun h => h hp
  · rename_i hp
    refine iff_of_true (fun e he => ?_) hp
    split at he
    · obtain rfl := Except.error.inj he
      decide
    split at he
    · obtain rfl := Except.error.inj he
      decide
    · exact nomatch he

/-- The other calls use no space. -/
theorem taskSchedule_safe (s : SecureWorld) : ∀ e, taskSchedule s = .error e →
    e ≠ .nullPackage ∧ e ≠ .nullComMem := by
  intro e he
  unfold taskSchedule at he
  split at he
  · obtain rfl := Except.error.inj he
    decide
  · exact nomatch he
  · exact nomatch he

theorem handlerSafe_request (h : PackageCall s.regs) :
    HandlerSafe s a ↔ RequestSafe (monSmcHandler s a) s a :=
  ⟨fun hs => ⟨hs.noNull, hs.answered h⟩, fun hs => ⟨hs.1, fun _ => hs.2⟩⟩

theorem handlerSafe_other (h : ¬ PackageCall s.regs) :
    HandlerSafe s a ↔
      ∀ e, monSmcHandler s a = .error e → e ≠ .nullPackage ∧ e ≠ .nullComMem :=
  ⟨fun hs => hs.noNull, fun hs => ⟨hs, fun hp => absurd hp h⟩⟩

/-- **A call is safe exactly when** it meets its condition. -/
theorem handlerSafe_iff (s : SecureWorld) (a : PackageAddrs) :
    HandlerSafe s a ↔ HandlerMeets s a := by
  unfold HandlerMeets
  by_cases hworld : s.regs.scr &&& 1 ≠ 0
  · have hhandler : monSmcHandler s a = monSmcNonSecureHandler s a := if_pos hworld
    by_cases hcmem : s.regs.r 12 = smcProcessCmem
    · have htmem : s.regs.r 12 ≠ smcProcessTmem := by
        rw [hcmem]
        decide
      have hcall : monSmcNonSecureHandler s a = processCmem s a := if_pos hcmem
      rw [handlerSafe_request ⟨hworld, Or.inl hcmem⟩, hhandler, hcall, processCmem_safe_iff]
      exact ⟨fun h => ⟨fun _ _ => h, fun _ ht => absurd ht htmem, fun hs => absurd hs hworld⟩,
        fun h => h.1 hworld hcmem⟩
    · by_cases htmem : s.regs.r 12 = smcProcessTmem
      · have hcall : monSmcNonSecureHandler s a = processTmem s a :=
          (if_neg hcmem).trans (if_pos htmem)
        rw [handlerSafe_request ⟨hworld, Or.inr htmem⟩, hhandler, hcall, processTmem_safe_iff]
        exact ⟨fun h => ⟨fun _ hc => absurd hc hcmem, fun _ _ => h, fun hs => absurd hs hworld⟩,
          fun h => h.2.1 hworld htmem⟩
      · have hcall : monSmcNonSecureHandler s a = .ok s := (if_neg hcmem).trans (if_neg htmem)
        have hother : ¬ PackageCall s.regs := fun h => h.2.elim hcmem htmem
        rw [handlerSafe_other hother, hhandler, hcall]
        exact iff_of_true nofun
          ⟨fun _ hc => absurd hc hcmem, fun _ ht => absurd ht htmem, fun hs => absurd hs hworld⟩
  · have hsecure : s.regs.scr &&& 1 = 0 := not_not.mp hworld
    have hhandler : monSmcHandler s a = monSmcSecureHandler s := if_neg hworld
    rw [handlerSafe_other fun h => hworld h.1, hhandler]
    have hmeets : ((s.regs.scr &&& 1 ≠ 0 → s.regs.r 12 = smcProcessCmem → CmemMeets s a) ∧
        (s.regs.scr &&& 1 ≠ 0 → s.regs.r 12 = smcProcessTmem → TmemMeets s a) ∧
        (s.regs.scr &&& 1 = 0 → s.regs.r 12 = sscNonsService → s.tz.package ≠ 0)) ↔
        (s.regs.r 12 = sscNonsService → s.tz.package ≠ 0) :=
      ⟨fun h => h.2.2 hsecure, fun h => ⟨fun hn => absurd hn hworld, fun hn => absurd hn hworld,
        fun _ => h⟩⟩
    rw [hmeets]
    by_cases hnons : s.regs.r 12 = sscNonsService
    · have hswitch : s.regs.r 12 ≠ sscTaskSwitch := by
        rw [hnons]
        decide
      have hschedule : s.regs.r 12 ≠ sscTaskSchedule := by
        rw [hnons]
        decide
      have hcall : monSmcSecureHandler s = nonsService s :=
        (if_neg hswitch).trans ((if_neg hschedule).trans (if_pos hnons))
      rw [hcall, nonsService_safe_iff]
      exact ⟨fun h _ => h, fun h => h hnons⟩
    · refine iff_of_true (fun e he => ?_) fun h => absurd h hnons
      unfold monSmcSecureHandler at he
      split at he
      · split at he
        · exact nomatch he
        · exact nomatch he
      split at he
      · exact taskSchedule_safe s e he
      · exact nomatch he

/-! ## 5. Every order of calls -/

/-- Every call that is made has the property, in the state in which it is made; nothing follows a
call that does not come back. -/
def EveryCall (P : SecureWorld → SwitchCall → Prop) : SecureWorld → List SwitchCall → Prop
  | _, [] => True
  | s, call :: calls =>
    P s call ∧ ∀ s', stepOf switchStep s call s' → EveryCall P s' calls

theorem spacesSafe_iff (s : SecureWorld) (call : SwitchCall) :
    SpacesSafe s call ↔ SpacesMeet s call := by
  cases call with
  | smc regs banked userTable a => exact handlerSafe_iff _ a
  | _ => exact Iff.rfl

/-- **For every order of calls**: none of them uses a space that is `NULL`, and every package that
cannot be mapped is answered with an error, exactly when each call meets its condition. -/
theorem everyCall_spacesSafe_iff (mem : SecureWorld) (calls : List SwitchCall) :
    EveryCall SpacesSafe (SecureWorld.init mem) calls ↔
      EveryCall SpacesMeet (SecureWorld.init mem) calls := by
  generalize SecureWorld.init mem = s
  induction calls generalizing s with
  | nil => exact Iff.rfl
  | cons call calls ih =>
    refine and_congr (spacesSafe_iff s call) (forall_congr' fun s' => ?_)
    exact imp_congr_right fun _ => ih s'

/-- The calls behind a run are made in its last state. -/
theorem EveryCall.of_run {P : SecureWorld → SwitchCall → Prop} {l l' : List SwitchCall}
    (h : EveryCall P s (l ++ l')) (hrun : Run (stepOf switchStep) s l s') : EveryCall P s' l' := by
  induction hrun with
  | nil s => exact h
  | cons hstep _ ih => exact ih (h.2 _ hstep)

/-- After the boot, before the first package is mapped, `SMC_PROCESS_CMEM` with an address that does
not translate reads through `NULL`, and so does `SSC_NONS_SERVICE`. -/
theorem everyCall_not_safe :
    ¬ EveryCall SpacesSafe (SecureWorld.init blankWorld)
      (bootCalls ++ [.smc ⟨1, fun i => if i = 12 then smcProcessCmem else 0, 0, 0⟩
        (monitorRestoreSysRegs .zero) 0 ⟨0, 0, 0⟩]) ∧
    ¬ EveryCall SpacesSafe (SecureWorld.init blankWorld)
      (bootCalls ++ [secureCall sscNonsService 0]) := by
  obtain ⟨s, hrun, -, -, hpackage, hcom⟩ := boot_run
  constructor
  · intro h
    have hworld : (1 : UInt32) &&& 1 ≠ 0 := by decide
    have hmeets := (spacesSafe_iff _ _).mp (h.of_run hrun).1
    have hrefused : Refused s.tz ⟨0, 0, 0⟩ := ⟨-1, s.tz, rfl, by decide⟩
    exact (hmeets.1 hworld rfl hrefused).2.1 hcom
  · intro h
    have hworld : (0 : UInt32) &&& 1 = 0 := by decide
    have hmeets := (spacesSafe_iff _ _).mp (h.of_run hrun).1
    exact hmeets.2.2 hworld rfl hpackage

end AndixOs.Sched
