/-
# UUIDs of processes

A process is found by its UUID (`get_process_by_uuid`), and the files it opens are stored under its
UUID.  Both take for granted that no two processes have the same one.  The trustlets of the boot
get theirs from the kernel; `swi_set_uuid` lets a process overwrite its own with any other, and does
not look whether it is taken (`uuids_separate_iff`).
-/
import AndixOs.Lib.Bytes
import AndixOs.Lib.Run

namespace AndixOs.Task

open AndixOs

/-! ## 1. `uuid.c` -/

/-- `TASK_UUID`. -/
structure TaskUuid where
  timeLow : UInt32
  timeMid : UInt16
  timeHiAndVersion : UInt16
  clockSeqAndNode : Bytes 8
  deriving DecidableEq

/-- What `set_uuid_emtpy` sets. -/
def TaskUuid.empty : TaskUuid := ⟨0, 0, 0, .zero 8⟩

/-- `isxdigit`. -/
def isXDigit (c : Char) : Bool :=
  c.isDigit || decide ('a' ≤ c ∧ c ≤ 'f') || decide ('A' ≤ c ∧ c ≤ 'F')

def digitValue (c : Char) : Nat :=
  if c.isDigit then c.toNat - 48 else if c.isUpper then c.toNat - 55 else c.toNat - 87

/-- `strtoul`, `strtous` and `strtouc` for base 16, where a digit comes first and nothing
overflows. -/
def strtoHex (cs : List Char) : Nat :=
  (cs.takeWhile isXDigit).foldl (fun acc c => acc * 16 + digitValue c) 0

/-- The test of character `i`. -/
def uuidCharOk (i : Nat) (c : Char) : Bool :=
  if i = 8 ∨ i = 13 ∨ i = 18 ∨ i = 23 then c == '-' else isXDigit c

/-- The bytes from character 19 on, the first of them last. -/
def parseClockSeq (cs : List Char) : Bytes 8 :=
  let digits := (cs.drop 19).filter (· != '-')
  ⟨(List.range 8).map fun i => UInt8.ofNat (strtoHex ((digits.drop (2 * (7 - i))).take 2)),
    by simp⟩

/-- `uuid_parse`; `none` for -1, and then nothing was written. -/
def uuidParse (s : String) : Option TaskUuid :=
  let cs := s.toList
  if cs.length ≠ 36 then none
  else if (cs.zipIdx.all fun x => uuidCharOk x.2 x.1) = false then none
  else some ⟨UInt32.ofNat (strtoHex cs), UInt16.ofNat (strtoHex (cs.drop 9)),
    UInt16.ofNat (strtoHex (cs.drop 14)), parseClockSeq cs⟩

/-- `match_uuids`. -/
def matchUuids (a b : TaskUuid) : Bool :=
  if a.timeHiAndVersion ≠ b.timeHiAndVersion then false
  else if a.timeMid ≠ b.timeMid then false
  else if a.timeLow ≠ b.timeLow then false
  else a.clockSeqAndNode == b.clockSeqAndNode

/-- `is_uuid_empty`. -/
def isUuidEmpty (u : TaskUuid) : Bool :=
  if u.timeHiAndVersion ≠ 0 then false
  else if u.timeMid ≠ 0 then false
  else if u.timeLow ≠ 0 then false
  else u.clockSeqAndNode.toList.all (· == 0)

/-! ## 2. Processes and their threads -/

/-- `thread_list`, with the process of each thread (`none` for a thread of the kernel), the UUIDs by
process, and `current_pid`.  A pid stands for the process structure: no process is ever taken out.
-/
structure Tasks where
  threads : List (Option Nat)
  uuid : Nat → TaskUuid
  currentPid : Nat

def Tasks.init : Tasks := ⟨[], fun _ => .empty, 1⟩

/-- The process is one of the list. -/
def Tasks.live (s : Tasks) (pid : Nat) : Bool := s.threads.contains (some pid)

/-- `tee_context.uuid` of a process is written. -/
def Tasks.setUuid (s : Tasks) (pid : Nat) (u : TaskUuid) : Tasks :=
  { s with uuid := fun p => if p = pid then u else s.uuid p }

/-- `create_kernel_thread` and `sched_add_thread`. -/
def createKernelThread (s : Tasks) : Tasks := { s with threads := s.threads ++ [none] }

/-- `create_user_process`, which clears the structure and adds the main thread. -/
def createUserProcess (s : Tasks) : Tasks :=
  { s.setUuid (s.currentPid + 1) .empty with
    threads := s.threads ++ [some (s.currentPid + 1)], currentPid := s.currentPid + 1 }

/-- `create_static_userspace_trustlet`. -/
def createStaticUserspaceTrustlet (s : Tasks) (uuidString : String) : Tasks :=
  match uuidParse uuidString with
  | none => createUserProcess s
  | some u => (createUserProcess s).setUuid (s.currentPid + 1) u

/-- `swi_set_uuid` of the process; `none` for an address that `is_valid_user_addr` refuses. -/
def swiSetUuid (s : Tasks) (pid : Nat) : Option TaskUuid → Tasks
  | none => s
  | some u => s.setUuid pid u

/-- `get_process_by_uuid`. -/
def getProcessByUuid (s : Tasks) (u : TaskUuid) : Option Nat :=
  if isUuidEmpty u then none
  else s.threads.findSome? fun th =>
    th.filter fun pid => !isUuidEmpty (s.uuid pid) && matchUuids (s.uuid pid) u

/-- The store name that `swi_open` passes to `fs_open`: the bytes of the UUID. -/
def storeName (u : TaskUuid) : List UInt8 :=
  le32 u.timeLow ++ le16 u.timeMid ++ le16 u.timeHiAndVersion ++ u.clockSeqAndNode.toList

/-- What happens to the list and the UUIDs. -/
inductive TaskCall where
  | kernelThread
  | userProcess
  | staticTrustlet (uuidString : String)
  | setUuid (pid : Nat) (uuid : Option TaskUuid)

/-- One call.  Only a live process makes system calls. -/
def taskStep (s : Tasks) : TaskCall → Option Tasks
  | .kernelThread => some (createKernelThread s)
  | .userProcess => some (createUserProcess s)
  | .staticTrustlet uuidString => some (createStaticUserspaceTrustlet s uuidString)
  | .setUuid pid uuid => if s.live pid then some (swiSetUuid s pid uuid) else none

/-! ## 3. What the rest of the kernel takes for granted -/

/-- A UUID belongs to one live process, and so do its sessions and its files. -/
structure Separate (s : Tasks) : Prop where
  distinct : ∀ p q, s.live p = true → s.live q = true → isUuidEmpty (s.uuid p) = false →
    s.uuid p = s.uuid q → p = q
  routed : ∀ u p, getProcessByUuid s u = some p →
    s.uuid p = u ∧ ∀ q, s.live q = true → s.uuid q = u → q = p
  stored : ∀ p q, s.live p = true → s.live q = true → isUuidEmpty (s.uuid p) = false →
    storeName (s.uuid p) = storeName (s.uuid q) → p = q

/-- No live process but `pid` has the UUID, unless it is empty. -/
def untaken (s : Tasks) (pid : Nat) (u : TaskUuid) : Bool :=
  isUuidEmpty u || s.threads.all fun th => th.all fun q => q == pid || s.uuid q != u

/-- The call gives a process no UUID that another live process has. -/
def assignsUntaken (s : Tasks) : TaskCall → Bool
  | .staticTrustlet uuidString =>
    (uuidParse uuidString).all fun u => untaken s (s.currentPid + 1) u
  | .setUuid pid uuid => uuid.all fun u => untaken s pid u
  | _ => true

variable {s t : Tasks} {pid : Nat} {u : TaskUuid}

/-! ## 4. UUIDs -/

theorem matchUuids_iff {a b : TaskUuid} : matchUuids a b = true ↔ a = b := by
  obtain ⟨a1, a2, a3, a4⟩ := a
  obtain ⟨b1, b2, b3, b4⟩ := b
  unfold matchUuids
  split_ifs with h3 h2 h1
  · simp_all
  · simp_all
  · simp_all
  · simp_all

/-- The bytes of a UUID determine it. -/
theorem storeName_injective : Function.Injective storeName := by
  rintro ⟨a1, a2, a3, a4⟩ ⟨b1, b2, b3, b4⟩ h
  simp only [storeName] at h
  obtain ⟨h123, h4⟩ := List.append_inj h (by simp)
  obtain ⟨h12, h3⟩ := List.append_inj h123 (by simp)
  obtain ⟨h1, h2⟩ := List.append_inj h12 (by simp)
  rw [le32_injective h1, le16_injective h2, le16_injective h3, List.Vector.toList_injective h4]

/-- Distinct UUIDs are enough for sessions and for files. -/
theorem separate_of_distinct
    (h : ∀ p q, s.live p = true → s.live q = true → isUuidEmpty (s.uuid p) = false →
      s.uuid p = s.uuid q → p = q) : Separate s := by
  refine ⟨h, fun u p hp => ?_, fun p q hp hq hne hname => h p q hp hq hne (storeName_injective hname)⟩
  unfold getProcessByUuid at hp
  split_ifs at hp with hempty
  obtain ⟨th, hth, hfilter⟩ := List.exists_of_findSome?_eq_some hp
  obtain ⟨rfl, hmatch⟩ := Option.filter_eq_some_iff.mp hfilter
  rw [Bool.and_eq_true, Bool.not_eq_true', matchUuids_iff] at hmatch
  obtain ⟨hne, hu⟩ := hmatch
  have hlive : s.live p = true := List.contains_iff_mem.mpr hth
  refine ⟨hu, fun q hq hqu => (h p q hlive hq hne (hu.trans hqu.symm)).symm⟩

/-! ## 5. One call -/

/-- The pids given away. -/
def PidsUsed (s : Tasks) : Prop := ∀ p, s.live p = true → p ≤ s.currentPid

theorem live_append (s : Tasks) (th : Option Nat) (p : Nat) :
    (s.threads ++ [th]).contains (some p) = true ↔ s.live p = true ∨ th = some p := by
  rw [List.contains_iff_mem, List.mem_append, List.mem_singleton, Tasks.live,
    List.contains_iff_mem, eq_comm (a := th)]

theorem untaken_iff : untaken s pid u = true ↔
    isUuidEmpty u = true ∨ ∀ q, s.live q = true → q ≠ pid → s.uuid q ≠ u := by
  unfold untaken
  rw [Bool.or_eq_true, List.all_eq_true]
  refine or_congr_right ⟨fun h q hq hne => ?_, fun h th hth => ?_⟩
  · have hall := h _ (List.contains_iff_mem.mp hq)
    simpa [hne] using hall
  · cases th with
    | none => rfl
    | some q =>
      have hq := h q (List.contains_iff_mem.mpr hth)
      by_cases hpid : q = pid
      · simp [hpid]
      · simpa [hpid] using hq hpid

/-- **Writing a UUID** keeps the processes apart exactly when nobody else has it. -/
theorem separate_setUuid (h : Separate s) (hp : s.live pid = true) :
    Separate (s.setUuid pid u) ↔ untaken s pid u = true := by
  have hself : (s.setUuid pid u).uuid pid = u := if_pos rfl
  have hother : ∀ q, q ≠ pid → (s.setUuid pid u).uuid q = s.uuid q := fun q hq => if_neg hq
  rw [untaken_iff]
  constructor
  · intro hsep
    rcases hempty : isUuidEmpty u with _ | _
    · refine Or.inr fun q hq hne heq => hne ?_
      refine (hsep.distinct pid q hp hq ?_ ?_).symm
      · rw [hself]
        exact hempty
      · rw [hself, hother q hne, heq]
    · exact Or.inl rfl
  · intro hfree
    refine separate_of_distinct fun p q hlp hlq hne heq => ?_
    by_cases hpp : p = pid
    · subst hpp
      by_contra hqp
      rw [hself] at hne heq
      rw [hother q fun hq => hqp hq.symm] at heq
      rcases hfree with hempty | hall
      · exact Bool.false_ne_true (hne.symm.trans hempty)
      · exact hall q hlq (fun hq => hqp hq.symm) heq.symm
    · rw [hother p hpp] at hne heq
      by_cases hqp : q = pid
      · subst hqp
        rw [hself] at heq
        rw [heq] at hne
        rcases hfree with hempty | hall
        · exact absurd (hne.symm.trans hempty) Bool.false_ne_true
        · exact absurd heq (hall p hlp hpp)
      · rw [hother q hqp] at heq
        exact h.distinct p q hlp hlq hne heq

/-- A thread of the kernel changes nothing. -/
theorem createKernelThread_separate (h : Separate s) : Separate (createKernelThread s) := by
  have hlive : ∀ p, (createKernelThread s).live p = true → s.live p = true := by
    intro p hp
    exact ((live_append s none p).mp hp).resolve_right (by simp)
  exact separate_of_distinct fun p q hp hq => h.distinct p q (hlive p hp) (hlive q hq)

/-- A new process has an empty UUID. -/
theorem createUserProcess_separate (h : Separate s) (hpids : PidsUsed s) :
    Separate (createUserProcess s) ∧ (createUserProcess s).live (s.currentPid + 1) = true ∧
      ∀ u, untaken (createUserProcess s) (s.currentPid + 1) u =
        untaken s (s.currentPid + 1) u := by
  have hlive : ∀ p, (createUserProcess s).live p = true ↔
      s.live p = true ∨ p = s.currentPid + 1 := by
    intro p
    have happend := live_append s (some (s.currentPid + 1)) p
    rw [Option.some_inj, eq_comm (a := s.currentPid + 1)] at happend
    exact happend
  have hold : ∀ p, s.live p = true → p ≠ s.currentPid + 1 := by
    intro p hp
    have := hpids p hp
    omega
  have huuid : ∀ p, p ≠ s.currentPid + 1 → (createUserProcess s).uuid p = s.uuid p :=
    fun p hp => if_neg hp
  have hnew : (createUserProcess s).uuid (s.currentPid + 1) = .empty := if_pos rfl
  refine ⟨separate_of_distinct fun p q hp hq hne heq => ?_, (hlive _).mpr (Or.inr rfl), fun u => ?_⟩
  · have hpn : p ≠ s.currentPid + 1 := by
      rintro rfl
      rw [hnew] at hne
      exact absurd hne (by decide)
    have hqn : q ≠ s.currentPid + 1 := by
      rintro rfl
      rw [heq, hnew] at hne
      exact absurd hne (by decide)
    rw [huuid p hpn] at hne heq
    rw [huuid q hqn] at heq
    exact h.distinct p q (((hlive p).mp hp).resolve_right hpn) (((hlive q).mp hq).resolve_right hqn)
      hne heq
  · rw [Bool.eq_iff_iff, untaken_iff, untaken_iff]
    refine or_congr_right ⟨fun hall q hq hne => ?_, fun hall q hq hne => ?_⟩
    · rw [← huuid q hne]
      exact hall q ((hlive q).mpr (Or.inl hq)) hne
    · rw [huuid q hne]
      exact hall q (((hlive q).mp hq).resolve_right hne) hne

/-- **One call** keeps the processes apart exactly when it assigns no UUID that is taken. -/
theorem taskStep_separate (hpids : PidsUsed s) (h : Separate s) {c : TaskCall}
    (hstep : stepOf taskStep s c t) : Separate t ↔ assignsUntaken s c = true := by
  cases c with
  | kernelThread =>
    obtain rfl := Option.some.inj hstep
    exact iff_of_true (createKernelThread_separate h) rfl
  | userProcess =>
    obtain rfl := Option.some.inj hstep
    exact iff_of_true (createUserProcess_separate h hpids).1 rfl
  | staticTrustlet uuidString =>
    obtain rfl := Option.some.inj hstep
    obtain ⟨hsep, hlive, huntaken⟩ := createUserProcess_separate h hpids
    simp only [createStaticUserspaceTrustlet, assignsUntaken]
    cases uuidParse uuidString with
    | none => exact iff_of_true hsep rfl
    | some u =>
      rw [Option.all_some, ← huntaken]
      exact separate_setUuid hsep hlive
  | setUuid p uuid =>
    rw [stepOf, taskStep] at hstep
    split_ifs at hstep with hlive
    obtain rfl := Option.some.inj hstep
    cases uuid with
    | none => exact iff_of_true h rfl
    | some u => exact separate_setUuid h hlive

/-- Pids are given away in order. -/
theorem taskStep_pidsUsed (hpids : PidsUsed s) {c : TaskCall} (hstep : stepOf taskStep s c t) :
    PidsUsed t := by
  have hcreate : PidsUsed (createUserProcess s) := by
    intro p hp
    have happend := (live_append s (some (s.currentPid + 1)) p).mp hp
    rcases happend with hold | heq
    · have := hpids p hold
      exact Nat.le_succ_of_le this
    · exact (Option.some.inj heq).ge
  cases c with
  | kernelThread =>
    obtain rfl := Option.some.inj hstep
    intro p hp
    exact hpids p (((live_append s none p).mp hp).resolve_right (by simp))
  | userProcess =>
    obtain rfl := Option.some.inj hstep
    exact hcreate
  | staticTrustlet uuidString =>
    obtain rfl := Option.some.inj hstep
    unfold createStaticUserspaceTrustlet
    split
    · exact hcreate
    · exact hcreate
  | setUuid p uuid =>
    rw [stepOf, taskStep] at hstep
    split_ifs at hstep
    obtain rfl := Option.some.inj hstep
    cases uuid with
    | none => exact hpids
    | some u => exact hpids

/-! ## 6. Every run -/

/-- **UUIDs on every run.**  Whatever processes are created and whatever UUIDs they set: in every
state reached a UUID that is not empty belongs to one live process, which is the one that
`get_process_by_uuid` finds and the one that its store name belongs to, exactly when no call assigns
a UUID that another live process has. -/
theorem uuids_separate_iff (cs : List TaskCall) (t : Tasks) :
    Run (fun s c t => stepOf taskStep s c t ∧ Separate t) .init cs t ↔
      Run (Guarded (fun s c => assignsUntaken s c = true) (stepOf taskStep)) .init cs t := by
  have hnone : ∀ {P : Prop} {p}, Tasks.init.live p = true → P :=
    fun hp => absurd hp Bool.false_ne_true
  have hpids : PidsUsed .init := fun p hp => hnone hp
  have hsep : Separate .init := separate_of_distinct fun p _ hp => hnone hp
  have hkeep : ∀ s c t, PidsUsed s → stepOf taskStep s c t → PidsUsed t :=
    fun _ _ _ h => taskStep_pidsUsed h
  have hiff : ∀ s c t, PidsUsed s → Separate s → stepOf taskStep s c t →
      (Separate t ↔ assignsUntaken s c = true) :=
    fun _ _ _ h hs => taskStep_separate h hs
  exact Run.keeps_iff hkeep hiff hpids hsep

/-- The UUIDs that the trustlets get at boot. -/
def sampleUuid : String := "7e58ce53-0ff2-4356-b1bd-cf81b708c6d5"
def rsaUuid : String := "2b0c6603-ac6d-4817-a102-ebef1ae0f846"

/-- The two trustlets are created, and the second takes the UUID of the first. -/
def takeoverCalls : List TaskCall :=
  [.staticTrustlet sampleUuid, .staticTrustlet rsaUuid, .setUuid 3 (uuidParse sampleUuid)]

example : execOk taskStep assignsUntaken .init [.staticTrustlet sampleUuid, .staticTrustlet rsaUuid]
    |>.isSome := by
  decide +kernel

/-- **A trustlet can take the UUID of another.** -/
theorem set_uuid_takes_over :
    ∃ t, Run (stepOf taskStep) .init takeoverCalls t ∧ ¬ Separate t := by
  have hsome : (execOk taskStep (fun _ _ => true) .init takeoverCalls).isSome = true := by
    decide +kernel
  obtain ⟨t, ht⟩ := Option.isSome_iff_exists.mp hsome
  have hsame : (execOk taskStep (fun _ _ => true) .init takeoverCalls).map
      (fun t => (t.live 2, t.live 3, isUuidEmpty (t.uuid 2), t.uuid 2 == t.uuid 3)) =
        some (true, true, false, true) := by
    decide +kernel
  rw [ht, Option.map_some, Option.some_inj] at hsame
  simp only [Prod.mk.injEq, beq_iff_eq] at hsame
  obtain ⟨h2, h3, hne, heq⟩ := hsame
  refine ⟨t, (run_of_execOk ht).of_guarded, fun hsep => ?_⟩
  exact absurd (hsep.distinct 2 3 h2 h3 hne heq) (by decide)

end AndixOs.Task
