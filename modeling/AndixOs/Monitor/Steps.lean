/-
# What a step can do

Each program of `Threads.lean` ends in one of a few ways.  They are listed here once, with the
conditions that lead to them, and the proofs about runs go through the lists.
-/
import AndixOs.Monitor.Threads

namespace AndixOs.Monitor

open Service (TzCtlrSpace)

variable {s s' t : System} {i : Nat} {input : Input} {call : Option Smc}

/-! ## 1. The service thread -/

/-- The service thread goes on to the head of the queue. -/
def ServicePc.Loops : ServicePc → Prop
  | .entry | .idle | .answered => True
  | .noControl _ | .asked _ | .aborted => False

theorem ServicePc.Loops.ne {pc : ServicePc} {r : Nat} (h : pc.Loops) :
    pc ≠ .asked r ∧ pc ≠ .noControl r := by
  constructor <;> rintro rfl <;> exact h

/-- The request `r` goes to the shared page. -/
def System.send (s : System) (r : Nat) : System :=
  { s with queue := none, ctrlShared := (s.requests r).ctrlSpace,
           servicePc := .asked r }.record (.sent r (s.requests r).ctrlSpace)

/-- The shared page goes to the request `r`. -/
def System.copy (s : System) (r : Nat) : System :=
  let request := { s.requests r with ctrlSpace := s.ctrlShared, ready := true }
  { s with requests := Function.update s.requests r request,
           servicePc := .answered }.record (.copied r s.ctrlShared)

inductive ServiceStep (s : System) : System → Option Smc → Prop where
  | idle (hpc : s.servicePc.Loops) (hqueue : s.queue = none) :
    ServiceStep s ({ s with servicePc := .idle }.setState .service .blocked) (some .taskSchedule)
  | noControl {r : Nat} (hpc : s.servicePc.Loops) (hqueue : s.queue = some r)
      (hnull : s.tz.comMem = 0) :
    ServiceStep s { s with queue := none, servicePc := .noControl r }
      (some (.taskSwitch (.trustlet (s.requests r).returnTask)))
  | send {r : Nat} (hpc : s.servicePc.Loops) (hqueue : s.queue = some r)
      (hready : (s.requests r).ready = false) (hnull : s.tz.comMem ≠ 0) :
    ServiceStep s (s.send r) (some (.nonsService ctrlStruct))
  | nullCopy (hpc : (∃ r, s.servicePc = .noControl r) ∨
      (∃ r, s.servicePc = .asked r) ∧ s.tz.comMem = 0) :
    ServiceStep s ({ s with servicePc := .aborted }.record .nullCopy) none
  | copy {r : Nat} (hpc : s.servicePc = .asked r) (hnull : s.tz.comMem ≠ 0) :
    ServiceStep s (s.copy r) (some (.taskSwitch (.trustlet (s.requests r).returnTask)))

theorem serviceLoop_cases (hpc : s.servicePc.Loops) (h : serviceLoop s = some (s', call)) :
    ServiceStep s s' call := by
  unfold serviceLoop at h
  split at h
  · rename_i hqueue
    obtain ⟨rfl, rfl⟩ := Prod.mk.inj (Option.some.inj h)
    exact .idle hpc hqueue
  · rename_i r hqueue
    simp only at h
    split at h
    · exact nomatch h
    rename_i hready
    split at h
    · rename_i hnull
      obtain ⟨rfl, rfl⟩ := Prod.mk.inj (Option.some.inj h)
      exact .noControl hpc hqueue hnull
    rename_i hnull
    split at h
    · exact nomatch h
    · obtain ⟨rfl, rfl⟩ := Prod.mk.inj (Option.some.inj h)
      exact .send hpc hqueue (Bool.not_eq_true _ ▸ hready) hnull

theorem serviceProgram_cases (h : serviceProgram s = some (s', call)) : ServiceStep s s' call := by
  unfold serviceProgram at h
  split at h
  · rename_i hpc
    exact serviceLoop_cases (hpc ▸ trivial) h
  · rename_i hpc
    exact serviceLoop_cases (hpc ▸ trivial) h
  · rename_i hpc
    exact serviceLoop_cases (hpc ▸ trivial) h
  · rename_i r hpc
    obtain ⟨rfl, rfl⟩ := Prod.mk.inj (Option.some.inj h)
    exact .nullCopy (Or.inl ⟨r, hpc⟩)
  · rename_i r hpc
    split at h
    · rename_i hnull
      obtain ⟨rfl, rfl⟩ := Prod.mk.inj (Option.some.inj h)
      exact .nullCopy (Or.inr ⟨⟨r, hpc⟩, hnull⟩)
    rename_i hnull
    split at h
    · exact nomatch h
    · obtain ⟨rfl, rfl⟩ := Prod.mk.inj (Option.some.inj h)
      exact .copy hpc hnull
  · exact nomatch h

/-! ## 2. The TEE thread -/

/-- The TEE thread goes on to the mapped TEE space. -/
def TeePc.Loops : TeePc → Prop
  | .entry | .idle | .responded => True
  | .inTrustlet _ _ => False

theorem TeePc.Loops.ne {pc : TeePc} {tee i : Nat} (h : pc.Loops) : pc ≠ .inTrustlet tee i := by
  rintro rfl
  exact h

/-- The end of the loop of `tee_task_entry`, with `space` copied to `tee`. -/
def System.respond (s : System) (tee : Nat) (space : TeeSpace) : System :=
  ({ s with space := space, teeShared := if tee = s.tz.teeMem then space else s.teeShared,
            teePc := .responded }.record (.copyBack tee s.tz.teeMem)).setState .tee .blocked

inductive TeeStep (s : System) : System → Option Smc → Prop where
  | idle (hpc : s.teePc.Loops) (hnull : s.tz.teeMem = 0) :
    TeeStep s ({ s with teePc := .idle }.setState .tee .blocked) (some .taskSchedule)
  | hand {i : Nat} (hpc : s.teePc.Loops) (hnull : s.tz.teeMem ≠ 0)
      (hop : s.teeShared.forTrustlet = true) (hmem : .trustlet i ∈ s.threads) :
    TeeStep s
      ({ s with space := s.teeShared, teeRpc := Function.update s.teeRpc i true,
                teePc := .inTrustlet s.tz.teeMem i,
                teeRequests := s.teeRequests + 1 }.record (.handed (s.teeRequests + 1) i))
      (some (.taskSwitch (.trustlet i)))
  | respond {ret : UInt32} (hpc : s.teePc.Loops) (hnull : s.tz.teeMem ≠ 0) :
    TeeStep s (s.respond s.tz.teeMem { s.teeShared with ret := ret }) (some (.nonsService teeStruct))
  | resume {tee i : Nat} (hpc : s.teePc = .inTrustlet tee i) :
    TeeStep s ((s.record (.resumed s.teeRequests i)).respond tee s.space)
      (some (.nonsService teeStruct))

theorem teeRespond_cases {tee : Nat} {ret : UInt32} (h : teeRespond s tee ret = some (s', call)) :
    s' = s.respond tee { s.space with ret := ret } ∧ call = some (.nonsService teeStruct) := by
  unfold teeRespond at h
  simp only at h
  split at h
  · exact nomatch h
  · obtain ⟨rfl, rfl⟩ := Prod.mk.inj (Option.some.inj h)
    exact ⟨rfl, rfl⟩

theorem teeLoop_cases (hpc : s.teePc.Loops) (h : teeLoop s input = some (s', call)) :
    TeeStep s s' call := by
  unfold teeLoop at h
  split at h
  · rename_i hnull
    obtain ⟨rfl, rfl⟩ := Prod.mk.inj (Option.some.inj h)
    exact .idle hpc hnull
  rename_i hnull
  split at h
  · exact nomatch h
  split at h
  · simp only at h
    split at h
    · split at h
      · rename_i hop
        obtain ⟨rfl, rfl⟩ := Prod.mk.inj (Option.some.inj h)
        exact .hand hpc hnull hop.1 hop.2
      · exact nomatch h
    · obtain ⟨rfl, rfl⟩ := teeRespond_cases h
      exact .respond hpc hnull
  · exact nomatch h

theorem teeProgram_cases (h : teeProgram s input = some (s', call)) : TeeStep s s' call := by
  unfold teeProgram at h
  split at h
  · rename_i hpc
    exact teeLoop_cases (hpc ▸ trivial) h
  · rename_i hpc
    exact teeLoop_cases (hpc ▸ trivial) h
  · rename_i hpc
    exact teeLoop_cases (hpc ▸ trivial) h
  · rename_i hpc
    obtain ⟨rfl, rfl⟩ := teeRespond_cases h
    exact .resume hpc

/-! ## 3. The trustlets -/

/-- The request of a file function, handed to the service thread. -/
def System.request (s : System) (i : Nat) (serving : Option Nat) (ctrl : TzCtlrSpace)
    (alloc : Bool) : System :=
  ({ s with queue := if alloc = true then some s.made else none,
            requests := Function.update s.requests s.made ⟨ctrl, false, i⟩,
            made := s.made + 1,
            trustletPc := Function.update s.trustletPc i (.fileRequest s.made serving)
    }.record (.made s.made ctrl)).setState .service .ready

inductive TrustletStep (s : System) (i : Nat) : Input → System → Option Smc → Prop where
  | fileRequest {serving : Option Nat} {ctrl : TzCtlrSpace} {alloc : Bool}
      (hpc : s.trustletPc i = .user serving) :
    TrustletStep s i (.fileRequest ctrl alloc) (s.request i serving ctrl alloc)
      (some (.taskSwitch .service))
  | secureRequest {serving : Option Nat} {ret : UInt32} {mm : MmEffect} {s1 : System}
      (hpc : s.trustletPc i = .user serving) (h : processAnswer s i serving ret mm = some s1) :
    TrustletStep s i (.secureRequest ret mm)
      ({ s1 with teeRpc := Function.update s1.teeRpc i false,
                 trustletPc := Function.update s1.trustletPc i .secureRequest
        }.setState (.trustlet i) .blocked)
      (some (.taskSwitch .tee))
  | again {r : Nat} {serving : Option Nat} {input : Input}
      (hpc : s.trustletPc i = .fileRequest r serving) (hready : (s.requests r).ready = false) :
    TrustletStep s i input s (some (.taskSwitch .service))
  | returned {r : Nat} {serving : Option Nat} {input : Input}
      (hpc : s.trustletPc i = .fileRequest r serving) (hready : (s.requests r).ready = true) :
    TrustletStep s i input
      ({ s with trustletPc := Function.update s.trustletPc i (.user serving) }.record
        (.returned r (s.requests r).ctrlSpace)) none
  | noRequest {input : Input} (hpc : s.trustletPc i = .secureRequest) (hrpc : s.teeRpc i = false) :
    TrustletStep s i input (s.setState (.trustlet i) .blocked) (some (.taskSwitch .tee))
  | receive {accepted : Bool} {ret : UInt32} {mm : MmEffect} {t : System} {c : Option Smc}
      (hpc : s.trustletPc i = .secureRequest) (hrpc : s.teeRpc i = true)
      (h : receiveRequest s i accepted ret mm = some (t, c)) :
    TrustletStep s i (.receive accepted ret mm) t c

theorem trustletProgram_cases (h : trustletProgram s i input = some (s', call)) :
    TrustletStep s i input s' call := by
  unfold trustletProgram at h
  split at h
  · rename_i hpc
    split at h
    · obtain ⟨rfl, rfl⟩ := Prod.mk.inj (Option.some.inj h)
      exact .fileRequest hpc
    · obtain ⟨s1, h1, heq⟩ := Option.map_eq_some_iff.mp h
      obtain ⟨rfl, rfl⟩ := Prod.mk.inj heq
      exact .secureRequest hpc h1
    · exact nomatch h
  · rename_i hpc
    split at h
    · rename_i hready
      obtain ⟨rfl, rfl⟩ := Prod.mk.inj (Option.some.inj h)
      exact .returned hpc hready
    · rename_i hready
      obtain ⟨rfl, rfl⟩ := Prod.mk.inj (Option.some.inj h)
      exact .again hpc (Bool.not_eq_true _ ▸ hready)
  · rename_i hpc
    split at h
    · rename_i hrpc
      obtain ⟨rfl, rfl⟩ := Prod.mk.inj (Option.some.inj h)
      exact .noRequest hpc hrpc
    rename_i hrpc
    split at h
    · exact .receive hpc (Bool.not_eq_false _ ▸ hrpc) h
    · exact nomatch h

/-- The two outcomes of the first half of `swi_get_secure_request`. -/
theorem processAnswer_cases {serving : Option Nat} {ret : UInt32} {mm : MmEffect}
    (h : processAnswer s i serving ret mm = some s') :
    s.teeRpc i = false ∧ s' = s ∨
      s.teeRpc i = true ∧ ∃ k space, mm.apply s.tz.k = some k ∧
        s' = serving.elim { s with tz := { s.tz with k := k }, space := space }
          fun n => { s with tz := { s.tz with k := k }, space := space }.record (.finished n i) := by
  unfold processAnswer at h
  split at h
  · rename_i hrpc
    exact Or.inl ⟨hrpc, (Option.some.inj h).symm⟩
  · rename_i hrpc
    obtain ⟨k, hk, rfl⟩ := Option.map_eq_some_iff.mp h
    refine Or.inr ⟨Bool.not_eq_false _ ▸ hrpc, k,
      if s.space.hasAnswer = true then { s.space with ret := ret } else s.space, hk, ?_⟩
    simp only
    split
    · rfl
    · rfl

/-- The three outcomes of the second half. -/
theorem receiveRequest_cases {accepted : Bool} {ret : UInt32} {mm : MmEffect}
    (h : receiveRequest s i accepted ret mm = some (s', call)) :
    ∃ k, mm.apply s.tz.k = some k ∧
      ((∃ space, s' = { s with tz := { s.tz with k := k }, space := space }.setState
            (.trustlet i) .blocked ∧ call = some (.taskSwitch .tee) ∧
          (s.space.forTrustlet = false ∨ accepted = false)) ∨
        s' = { s with tz := { s.tz with k := k },
                      trustletPc := Function.update s.trustletPc i (.user (some s.teeRequests)) } ∧
          call = none ∧ accepted = true ∧ s.space.forTrustlet = true) := by
  obtain ⟨k, hk, heq⟩ := Option.map_eq_some_iff.mp h
  refine ⟨k, hk, ?_⟩
  simp only at heq
  split at heq
  · rename_i hop
    obtain ⟨rfl, rfl⟩ := Prod.mk.inj heq
    exact Or.inl ⟨s.space, rfl, rfl, Or.inl hop⟩
  rename_i hop
  split at heq
  · rename_i hacc
    obtain ⟨rfl, rfl⟩ := Prod.mk.inj heq
    exact Or.inr ⟨rfl, rfl, hacc, Bool.not_eq_false _ ▸ hop⟩
  · rename_i hacc
    obtain ⟨rfl, rfl⟩ := Prod.mk.inj heq
    exact Or.inl ⟨_, rfl, rfl, Or.inr (Bool.not_eq_true _ ▸ hacc)⟩

/-! ## 4. The non-secure world -/

/-- The structures that the non-secure world passed are mapped, and an event is recorded. -/
def System.accept (s : System) (tz : TzState) (p : NsPackage) (e : Event) : System :=
  { s with tz := tz, teeShared := p.tee, ctrlShared := p.ctrl }.record e

/-- An SMC and its outcomes: the thread that waits for the structures is switched to; those of a
request are refused. -/
inductive NonsecureStep (s : System) : Input → System → Prop where
  | refused {p : NsPackage} {r : Int} {tz : TzState}
      (hset : setTzPackage s.tz p.paddr.toNat p.teePaddr.toNat p.ctrlPaddr.toNat = some (r, tz))
      (hnull : tz.teeMem = 0) : NonsecureStep s (.tmem p) { s with tz := tz }
  | requested {p : NsPackage} {r : Int} {tz : TzState}
      (hset : setTzPackage s.tz p.paddr.toNat p.teePaddr.toNat p.ctrlPaddr.toNat = some (r, tz))
      (hmem : tz.teeMem ≠ 0) :
    NonsecureStep s (.tmem p)
      (schedThreadSwitched ((s.accept tz p .requested).setState .tee .ready) .tee)
  | answered {p : NsPackage} {r : Int} {tz : TzState}
      (hset : setTzPackage s.tz p.paddr.toNat p.teePaddr.toNat p.ctrlPaddr.toNat = some (r, tz))
      (hmem : tz.comMem ≠ 0) :
    NonsecureStep s (.cmem p)
      (schedThreadSwitched (((s.accept tz p (.answered p.ctrl)).setState s.current .blocked).setState
        .service .ready) .service)

theorem nonsecureProgram_call (h : nonsecureProgram s input = some (s', call)) :
    s' = s ∧ ∃ p, call = some (.processTmem p) ∨ call = some (.processCmem p) := by
  unfold nonsecureProgram at h
  split at h
  · obtain ⟨rfl, rfl⟩ := Prod.mk.inj (Option.some.inj h)
    exact ⟨rfl, _, Or.inl rfl⟩
  · obtain ⟨rfl, rfl⟩ := Prod.mk.inj (Option.some.inj h)
    exact ⟨rfl, _, Or.inr rfl⟩
  · exact nomatch h

theorem nonsecure_cases (h : nonsecureProgram s input = some (s', call))
    (hsmc : call.elim (some s') (smc s') = some t) : NonsecureStep s input t := by
  unfold nonsecureProgram at h
  split at h
  · obtain ⟨rfl, rfl⟩ := Prod.mk.inj (Option.some.inj h)
    obtain ⟨⟨r, tz⟩, hset, rfl⟩ := Option.map_eq_some_iff.mp hsmc
    simp only
    split
    · rename_i hnull
      exact .refused hset hnull
    · rename_i hmem
      exact .requested hset hmem
  · obtain ⟨rfl, rfl⟩ := Prod.mk.inj (Option.some.inj h)
    obtain ⟨⟨r, tz⟩, hset, hans⟩ := Option.bind_eq_some_iff.mp hsmc
    simp only at hans
    split at hans
    · exact nomatch hans
    · rename_i hmem
      obtain rfl := Option.some.inj hans
      exact .answered hset hmem
  · exact nomatch h

end AndixOs.Monitor
