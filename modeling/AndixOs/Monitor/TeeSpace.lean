/-
# The TEE space of a request

`tee_task_entry` reads the address of the TEE space once, and copies its answer there when the
trustlet is done.  In between the trustlet's file requests leave to the non-secure world, which
comes back with a package of its own: `free_tz_package` has unmapped the TEE space, and
`set_tz_package` maps the new one, wherever the first free pages are and at the offset of the new
address.

The copy goes to the mapped TEE space if each such SMC puts the TEE space at the address that was
read (`copyBack_run`): the same pages of the area, and the same offset in its page.  Nothing in the
monitor asks for that (`copyBack_elsewhere`).
-/
import AndixOs.Monitor.Nonsecure
import AndixOs.Monitor.Steps

namespace AndixOs.Monitor

open Mm

/-! ## 1. The pages of a package -/

/-- Where the TEE space of a package goes while none is mapped: behind the pages of the package it
takes the first free run, and keeps its offset. -/
def teeSpot (b : Bitmap) (p : NsPackage) : Option Nat :=
  let n := neededPages p.paddr.toNat sizeofTzPackage
  let n' := neededPages p.teePaddr.toNat sizeofTzTeeSpace
  (findRun b.isFree n (b.pages + 1 - n) 0).bind fun q =>
    (findRun (fun x => b.isFree x && !decide (q ≤ x ∧ x < q + n)) n' (b.pages + 1 - n') 0).map
      fun q' => mmmStart + 4096 * q' + p.teePaddr.toNat % 4096

theorem mapNonsecure_range {k : Kernel} (hk : Mapable k) (paddr : UInt32) {size : Nat}
    (hsize : size < 4294967296) (h : (mapNonsecure k paddr.toNat size).1 ≠ 0) :
    ∃ q, MapsRange k (mapNonsecure k paddr.toNat size).2 paddr.toNat size
      (physMemInfo apSvcRwUsrNo 0 0 1) (mapNonsecure k paddr.toNat size).1 q :=
  (mapPhysMem_spec hk.words apSvcRwUsrNo 0 0 1 paddr.toNat_lt hsize).resolve_left h

/-- `set_tz_package` puts the TEE space there. -/
theorem teeSpot_mapped {s s' : TzState} {p : NsPackage} (hk : Mapable s.k)
    (h : MappedAt s s' p.paddr p.teePaddr) : teeSpot s.k.mmm p = some s'.teeMem := by
  obtain ⟨hm, hpkg, htee⟩ := h
  have hne := hm.1.ne_zero
  have hne' := hm.2.1.ne_zero
  rw [hpkg] at hne
  rw [htee] at hne' ⊢
  have hk1 := (mapNonsecure_area hk p.paddr (show sizeofTzPackage < 4294967296 by decide)).2
  obtain ⟨q, hq⟩ := mapNonsecure_range hk p.paddr (by decide) hne
  obtain ⟨q', hq'⟩ := mapNonsecure_range hk1 p.teePaddr (by decide) hne'
  have hrun := hq'.run
  have hpages : (mapNonsecure s.k p.paddr.toNat sizeofTzPackage).2.mmm.pages = s.k.mmm.pages :=
    congrArg (32 * ·) hq.words
  rw [hpages, funext hq.marked] at hrun
  simp only [teeSpot]
  rw [hq.run.findRun, Option.bind_some, hrun.findRun, Option.map_some, hq'.addr]

/-! ## 2. What a step keeps -/

/-- An answer goes to where its request was read. -/
def Event.copiesBack : Event → Bool
  | .copyBack tee mapped => tee == mapped
  | _ => true

/-- So far all answers did, and the one to come will while the secure world runs. -/
structure TeeInv (s : System) : Prop where
  log : ∀ e ∈ s.log, e.copiesBack = true
  read : ∀ tee i, s.teePc = .inTrustlet tee i → s.current ≠ .nonsecure → s.tz.teeMem = tee

section

variable {apps : Nat} {s s' t : System} {call : Option Smc} {input : Input} {e : Event}

/-- The part of a step that has no part in this. -/
structure TeeQuiet (s t : System) : Prop where
  pc : t.teePc = s.teePc
  log : ∃ es, t.log = s.log ++ es ∧ ∀ e ∈ es, e.copiesBack = true

theorem TeeQuiet.same (h : (t.teePc, t.log) = (s.teePc, s.log)) : TeeQuiet s t := by
  obtain ⟨h1, h2⟩ := Prod.mk.inj h
  exact ⟨h1, [], by rw [h2, List.append_nil], nofun⟩

theorem TeeQuiet.one (h : (t.teePc, t.log) = (s.teePc, s.log ++ [e]))
    (he : e.copiesBack = true) : TeeQuiet s t := by
  obtain ⟨h1, h2⟩ := Prod.mk.inj h
  exact ⟨h1, [e], h2, by simpa using he⟩

theorem TeeQuiet.trans (h1 : TeeQuiet s s') (h2 : TeeQuiet s' t) : TeeQuiet s t := by
  obtain ⟨es1, hl1, hn1⟩ := h1.log
  obtain ⟨es2, hl2, hn2⟩ := h2.log
  refine ⟨h2.pc.trans h1.pc, es1 ++ es2, ?_, List.forall_mem_append.mpr ⟨hn1, hn2⟩⟩
  rw [hl2, hl1, List.append_assoc]

theorem TeeInv.quiet (hs : TeeInv s) (h : TeeQuiet s t)
    (hread : ∀ tee i, s.teePc = .inTrustlet tee i → t.current ≠ .nonsecure →
      t.tz.teeMem = tee) : TeeInv t := by
  obtain ⟨es, hl, hn⟩ := h.log
  refine ⟨?_, fun tee i hpc => hread tee i (h.pc ▸ hpc)⟩
  rw [hl]
  exact List.forall_mem_append.mpr ⟨hs.log, hn⟩

theorem TeeInv.switch (hs : TeeInv s) (hcur : s.current ≠ .nonsecure) (u : Thread) :
    TeeInv (schedThreadSwitched s u) := by
  refine hs.quiet (TeeQuiet.same (by rw [schedThreadSwitched_eq])) fun tee i hpc _ => ?_
  rw [schedThreadSwitched_tz]
  exact hs.read tee i hpc hcur

theorem TeeInv.schedule (hs : TeeInv s) (hcur : s.current ≠ .nonsecure)
    (hsmc : smc s .taskSchedule = some t) : TeeInv t := by
  simp only [smc] at hsmc
  split at hsmc
  · obtain rfl := Option.some.inj hsmc
    exact hs
  · obtain rfl := Option.some.inj hsmc
    exact hs.switch hcur _

/-- A call of a secure thread keeps the TEE space, or leaves to the non-secure world. -/
theorem TeeInv.smc (hs : TeeInv s') (hcur : s'.current ≠ .nonsecure) (hcall : CallOk s s' call)
    (hsmc : call.elim (some s') (Monitor.smc s') = some t) : TeeInv t := by
  cases call with
  | none =>
    obtain rfl := Option.some.inj hsmc
    exact hs
  | some c =>
    cases c with
    | taskSwitch u =>
      obtain rfl := Option.some.inj hsmc
      exact hs.switch hcur u
    | taskSchedule => exact hs.schedule hcur hsmc
    | nonsService r =>
      simp only [Option.elim_some, Monitor.smc] at hsmc
      split at hsmc
      · cases hsmc
      obtain ⟨tz, -, rfl⟩ := Option.map_eq_some_iff.mp hsmc
      refine hs.quiet (TeeQuiet.one (e := .result r) ?_ rfl) fun _ _ _ hns => ?_
      · rw [schedThreadSwitched_eq]
        rfl
      · exact absurd (schedThreadSwitched_current ..) hns
    | processTmem p => exact hcall.elim
    | processCmem p => exact hcall.elim

theorem serviceStep_teeQuiet (h : ServiceStep s s' call) : TeeQuiet s s' := by
  cases h with
  | idle _ _ => exact TeeQuiet.same rfl
  | noControl _ _ _ => exact TeeQuiet.same rfl
  | @send r _ _ _ _ => exact TeeQuiet.one (e := .sent r (s.requests r).ctrlSpace) rfl rfl
  | nullCopy _ => exact TeeQuiet.one (e := .nullCopy) rfl rfl
  | @copy r _ _ => exact TeeQuiet.one (e := .copied r s.ctrlShared) rfl rfl

theorem trustletStep_teeQuiet {i : Nat} (h : TrustletStep s i input s' call) : TeeQuiet s s' := by
  cases h with
  | @fileRequest _ ctrl _ _ => exact TeeQuiet.one (e := .made s.made ctrl) rfl rfl
  | @secureRequest serving _ _ s1 _ h1 =>
    have hquiet : TeeQuiet s s1 := by
      obtain ⟨-, rfl⟩ | ⟨-, k, space, -, rfl⟩ := processAnswer_cases h1
      · exact TeeQuiet.same rfl
      · cases serving with
        | none => exact TeeQuiet.same rfl
        | some n => exact TeeQuiet.one (e := .finished n i) rfl rfl
    exact hquiet.trans (TeeQuiet.same rfl)
  | again _ _ => exact TeeQuiet.same rfl
  | @returned r _ _ _ _ => exact TeeQuiet.one (e := .returned r (s.requests r).ctrlSpace) rfl rfl
  | noRequest _ _ => exact TeeQuiet.same rfl
  | receive _ _ h =>
    obtain ⟨k, -, ⟨space, rfl, -, -⟩ | ⟨rfl, -, -, -⟩⟩ := receiveRequest_cases h
    · exact TeeQuiet.same rfl
    · exact TeeQuiet.same rfl

/-- The TEE thread reads the address, and copies to it. -/
theorem TeeInv.tee (hs : TeeInv s) (hcur : s.current = .tee) (h : TeeStep s s' call) :
    TeeInv s' := by
  have hns : s.current ≠ .nonsecure := by rw [hcur]; exact nofun
  have hrespond {s1 : System} {tee : Nat} {space : TeeSpace} (h1 : ∀ e ∈ s1.log, e.copiesBack = true)
      (htee : s1.tz.teeMem = tee) : TeeInv (s1.respond tee space) := by
    refine ⟨List.forall_mem_append.mpr ⟨h1, ?_⟩, fun _ _ hpc => nomatch hpc⟩
    rw [List.forall_mem_singleton]
    exact beq_iff_eq.mpr htee.symm
  cases h with
  | idle _ _ => exact ⟨hs.log, fun _ _ hpc => nomatch hpc⟩
  | @hand i _ _ _ _ =>
    refine ⟨List.forall_mem_append.mpr ⟨hs.log, by simp [Event.copiesBack]⟩, fun tee j hpc _ => ?_⟩
    exact (TeePc.inTrustlet.inj hpc).1
  | respond _ _ => exact hrespond hs.log rfl
  | @resume tee i hpc =>
    refine hrespond (List.forall_mem_append.mpr ⟨hs.log, by simp [Event.copiesBack]⟩) ?_
    exact hs.read tee i hpc hns

/-! ## 3. Runs -/

/-- An SMC that is accepted while the TEE thread waits for a trustlet puts the TEE space where the
request was read. -/
def teeSpaceOk (s : System) (input : Input) : Bool :=
  match s.current, s.teePc, input with
  | .nonsecure, .inTrustlet tee _, .tmem p | .nonsecure, .inTrustlet tee _, .cmem p =>
    !p.accepted s.tz || teeSpot s.tz.k.mmm p == some tee
  | _, _, _ => true

/-- An SMC. -/
theorem TeeInv.nonsecure (hw : WorldInv apps s) (hs : TeeInv s) (hcur : s.current = .nonsecure)
    (hok : teeSpaceOk s input = true) (h : nonsecureProgram s input = some (s', call))
    (hsmc : call.elim (some s') (Monitor.smc s') = some t) : TeeInv t := by
  have hout : Outside s := by
    obtain hb | hout | hin := hw.world
    · exact absurd hcur hb.secure
    · exact hout
    · exact absurd hcur hin.secure
  -- the state of the structures behind the SMC
  have hset {p : NsPackage} {r : Int} {tz : TzState}
      (hset : setTzPackage s.tz p.paddr.toNat p.teePaddr.toNat p.ctrlPaddr.toNat = some (r, tz))
      (hok : ∀ tee i, s.teePc = .inTrustlet tee i →
        (!p.accepted s.tz || teeSpot s.tz.k.mmm p == some tee) = true)
      (hm : tz.teeMem ≠ 0 ∨ tz.comMem ≠ 0) (tee i : Nat) (hpc : s.teePc = .inTrustlet tee i) :
      tz.teeMem = tee := by
    obtain ⟨-, hun | hat⟩ := setTzPackage_spec hout.unmapped hw.mapable hset
    · exact absurd hm (by simp [hun.2.1, hun.2.2])
    · have hacc : p.accepted s.tz = true := by
        unfold NsPackage.accepted
        rw [hset, Option.any_some]
        exact bne_iff_ne.mpr hat.1.2.1.ne_zero
      have hspot := hok tee i hpc
      rw [hacc, teeSpot_mapped hw.mapable hat] at hspot
      simpa using hspot
  have hrefused (tz : TzState) : TeeInv { s with tz := tz } :=
    hs.quiet (TeeQuiet.same rfl) fun _ _ _ hns => absurd hcur hns
  cases nonsecure_cases h hsmc with
  | refused => exact hrefused _
  | requested hs1 hm =>
    refine hs.quiet (TeeQuiet.one (e := .requested) ?_ rfl) fun tee i hpc _ => ?_
    · rw [schedThreadSwitched_eq]
      rfl
    · rw [schedThreadSwitched_tz]
      refine hset hs1 (fun tee i hpc => ?_) (Or.inl hm) tee i hpc
      simpa only [teeSpaceOk, hcur, hpc] using hok
  | @answered p _ _ hs1 hm =>
    refine hs.quiet (TeeQuiet.one (e := .answered p.ctrl) ?_ rfl) fun tee i hpc _ => ?_
    · rw [schedThreadSwitched_eq]
      rfl
    · rw [schedThreadSwitched_tz]
      refine hset hs1 (fun tee i hpc => ?_) (Or.inr hm) tee i hpc
      simpa only [teeSpaceOk, hcur, hpc] using hok

theorem teeInv_step (hw : WorldInv apps s) (hs : TeeInv s) (hok : teeSpaceOk s input = true)
    (h : step apps s input = some t) : TeeInv t := by
  obtain ⟨s', call, hp, hsmc⟩ := step_eq_some h
  by_cases hns : s.current = .nonsecure
  · unfold program at hp
    rw [hns] at hp
    exact hs.nonsecure hw hns hok hp hsmc
  by_cases hmain : s.current = .main
  · unfold program at hp
    rw [hmain] at hp
    have hquiet : TeeQuiet s s' ∧ s'.tz = s.tz ∧ s'.current = s.current ∧
        call = some .taskSchedule := by
      simp only [mainProgram] at hp
      split_ifs at hp <;> obtain ⟨rfl, rfl⟩ := Prod.mk.inj (Option.some.inj hp) <;>
        exact ⟨TeeQuiet.same rfl, rfl, rfl, rfl⟩
    obtain ⟨hquiet, htz, hcur, rfl⟩ := hquiet
    have hs' : TeeInv s' := hs.quiet hquiet fun tee i hpc _ => htz ▸ hs.read tee i hpc hns
    exact hs'.schedule (hcur ▸ hns) hsmc
  obtain ⟨hframe, hcall⟩ := secureProgram_step hmain hns hp
  have hquiet (hquiet : TeeQuiet s s') : TeeInv s' :=
    hs.quiet hquiet fun tee i hpc _ => hframe.spaces.2.1.trans (hs.read tee i hpc hns)
  have hs' : TeeInv s' := by
    unfold program at hp
    cases hcur : s.current with
    | main => exact absurd hcur hmain
    | service =>
      rw [hcur] at hp
      exact hquiet (serviceStep_teeQuiet (serviceProgram_cases hp))
    | tee =>
      rw [hcur] at hp
      exact hs.tee hcur (teeProgram_cases hp)
    | trustlet i =>
      rw [hcur] at hp
      exact hquiet (trustletStep_teeQuiet (trustletProgram_cases hp))
    | nonsecure => exact absurd hcur hns
  exact hs'.smc (hframe.current ▸ hns) hcall hsmc

/-- **The copy back.**  In every run whose SMCs, while the TEE thread waits for a trustlet, put the
TEE space at the address that was read: each answer is copied to the TEE space that is mapped. -/
theorem copyBack_run {k : Kernel} {tee : TeeSpace} {ctrl : Service.TzCtlrSpace}
    {inputs : List Input} (hk : Mapable k)
    (hrun : Run (Guarded (fun s a => teeSpaceOk s a = true) (stepOf (step apps)))
      (System.init k tee ctrl) inputs s) (p q : Nat) (h : .copyBack p q ∈ s.log) : p = q := by
  have hkeep : ∀ s a t, WorldInv apps s ∧ TeeInv s →
      Guarded (fun s a => teeSpaceOk s a = true) (stepOf (step apps)) s a t →
      WorldInv apps t ∧ TeeInv t :=
    fun _ _ _ hs h => ⟨worldInv_step hs.1 h.2, teeInv_step hs.1 hs.2 h.1 h.2⟩
  have hinv := hrun.invariant hkeep ⟨worldInv_init hk tee ctrl, nofun, nofun⟩
  exact beq_iff_eq.mp (hinv.2.log _ h)

end

def Event.isCopyBack : Event → Bool
  | .copyBack _ _ => true
  | _ => false

/-- The answer comes with the package of the request. -/
theorem copyBack_run_same : ∃ inputs s p q,
    Run (Guarded (fun s a => teeSpaceOk s a = true) (stepOf (step 1)))
      (System.init bootKernel someRequest someCtrl) inputs s ∧
    .copyBack p q ∈ s.log ∧ p = q := by
  have hcomputed : (execOk (step 1) teeSpaceOk (System.init bootKernel someRequest someCtrl)
      (servedInputs somePackage)).any (fun s => s.log.any Event.isCopyBack) = true := by
    decide +kernel
  obtain ⟨s, hrun, hs⟩ := exists_run_of_execOk hcomputed
  obtain ⟨e, hmem, he⟩ := List.any_eq_true.mp hs
  cases e with
  | copyBack p q =>
    exact ⟨_, s, p, q, hrun, hmem, copyBack_run bootKernel_mapable hrun p q hmem⟩
  | _ => exact nomatch he

/-- It comes with a TEE space sixteen bytes further on its page. -/
theorem copyBack_elsewhere : ∃ inputs s p q,
    Run (stepOf (step 1)) (System.init bootKernel someRequest someCtrl) inputs s ∧
    .copyBack p q ∈ s.log ∧ p ≠ q := by
  have hcomputed : (execOk (step 1) (fun _ _ => true)
      (System.init bootKernel someRequest someCtrl)
      (servedInputs { somePackage with teePaddr := 0xB0002010 })).any
      (fun s => s.log.any fun e => !e.copiesBack) = true := by
    decide +kernel
  obtain ⟨s, hrun, hs⟩ := exists_run_of_execOk hcomputed
  obtain ⟨e, hmem, he⟩ := List.any_eq_true.mp hs
  cases e with
  | copyBack p q => exact ⟨_, s, p, q, hrun.of_guarded, hmem, by simpa [Event.copiesBack] using he⟩
  | _ => exact nomatch he

end AndixOs.Monitor
