/-
# Contexts that are still referred to

A session and a registered memory point to the context they were made in.  `RefsOk` says that this
context is in the list.  Creating a session or a memory looks the context up first, and nothing but
`tee_context_remove` takes a context out; that function leaves the sessions and the memories of the
context where they are, so `TZ_TEE_OP_FIN_CTX` is the one request that can break `RefsOk`
(`refs_ok_iff`).
-/
import AndixOs.Tee.Memory

namespace AndixOs.Tee

open AndixOs

/-- Every session and every memory is one of a context in the list. -/
structure RefsOk (w : TeeWorld) : Prop where
  sessions : ∀ x ∈ w.tee.sessions, ∃ c ∈ w.tee.contexts, c.ptr = x.context
  memories : ∀ m ∈ w.memories, ∃ c ∈ w.tee.contexts, c.ptr = m.context

/-- The request finalises no context that a session or a memory refers to. -/
def finalizesUnused (w : TeeWorld) : TeeCall × Choice → Bool
  | (.request (.finCtx context), _) =>
    match teeContextFind w.tee context with
    | none => true
    | some c =>
      w.tee.sessions.all (fun x => x.context != c.ptr) &&
        w.memories.all fun m => m.context != c.ptr
  | _ => true

variable {s t u : TeeState} {w v : TeeWorld} {processByUuid : Nat → Option Nat}

/-! ## 1. Requests that take no context out -/

/-- No context is lost, and every session is one of a context that a session was one of before, or
of a context in the list. -/
structure Grows (s t : TeeState) : Prop where
  contexts : s.contexts ⊆ t.contexts
  sessions : ∀ x ∈ t.sessions,
    (∃ y ∈ s.sessions, y.context = x.context) ∨ ∃ c ∈ s.contexts, c.ptr = x.context

theorem Grows.refl (s : TeeState) : Grows s s :=
  ⟨List.Subset.refl _, fun x hx => Or.inl ⟨x, hx, rfl⟩⟩

theorem Grows.trans (h : Grows s t) (h' : Grows t u) (hc : t.contexts = s.contexts) :
    Grows s u := by
  refine ⟨List.Subset.trans h.contexts h'.contexts, fun x hx => ?_⟩
  rcases h'.sessions x hx with ⟨y, hy, hyx⟩ | ⟨c, hcm, hcx⟩
  · rcases h.sessions y hy with ⟨z, hz, hzy⟩ | ⟨c, hcm, hcy⟩
    · exact Or.inl ⟨z, hz, hzy.trans hyx⟩
    · exact Or.inr ⟨c, hcm, hcy.trans hyx⟩
  · rw [hc] at hcm
    exact Or.inr ⟨c, hcm, hcx⟩

/-- A store into a session, not into its context. -/
theorem grows_updateSession (s : TeeState) (id : UInt32) {f : TeeSession → TeeSession}
    (hf : ∀ x, (f x).context = x.context) : Grows s (updateSession s id f) := by
  refine ⟨List.Subset.refl _, fun x hx => ?_⟩
  obtain ⟨y, hy, rfl⟩ := List.mem_map.mp hx
  refine Or.inl ⟨y, hy, ?_⟩
  split
  · exact (hf y).symm
  · rfl

theorem grows_record (s : TeeState) (e : TeeEvent) : Grows s (s.record e) :=
  ⟨List.Subset.refl _, fun x hx => Or.inl ⟨x, hx, rfl⟩⟩

theorem serveOpen_grows (s : TeeState) (pid : Nat) (x : TeeSession) (ch : Choice) :
    Grows s (serveOpen s pid x ch).2 ∧ (serveOpen s pid x ch).2.contexts = s.contexts := by
  unfold serveOpen
  split
  · exact ⟨Grows.refl s, rfl⟩
  · dsimp only
    split
    · exact ⟨grows_record s _, rfl⟩
    · split
      · exact ⟨grows_record s _, rfl⟩
      · exact ⟨(grows_record s _).trans (grows_updateSession _ _ fun _ => rfl) rfl, rfl⟩

/-- **`tee_open_session`** looks up the context of the session it creates. -/
theorem teeOpenSession_grows {context : UInt32} {uuid : Nat} {ch : Choice} {r : TeeResponse}
    (h : teeOpenSession processByUuid s context uuid ch = some (r, t)) : Grows s t := by
  unfold teeOpenSession at h
  split at h
  · obtain ⟨-, rfl⟩ := Prod.mk.inj (Option.some.inj h)
    exact Grows.refl s
  · rename_i c hc
    have hmem := List.mem_of_find?_eq_some hc
    obtain ⟨⟨x, s'⟩, hcreate, hrest⟩ := Option.map_eq_some_iff.mp h
    unfold teeSessionCreate at hcreate
    split_ifs at hcreate
    · obtain ⟨id, -, hpair⟩ := Option.map_eq_some_iff.mp hcreate
      obtain ⟨rfl, rfl⟩ := Prod.mk.inj hpair
      have hadd : Grows s { s with
          sessions := s.sessions ++ [⟨id, ch.staleApp, c.ptr, ch.staleHandle⟩] } := by
        refine ⟨List.Subset.refl _, fun x hx => ?_⟩
        rcases List.mem_append.mp hx with hx | hx
        · exact Or.inl ⟨x, hx, rfl⟩
        · obtain rfl := List.mem_singleton.mp hx
          exact Or.inr ⟨c, hmem, rfl⟩
      simp only at hrest
      split at hrest
      · obtain ⟨-, rfl⟩ := Prod.mk.inj hrest
        exact hadd
      · rename_i pid _
        have hserve := serveOpen_grows (updateSession { s with
            sessions := s.sessions ++ [⟨id, ch.staleApp, c.ptr, ch.staleHandle⟩] } id
          fun z => { z with teeApplication := some pid }) pid
          ⟨id, ch.staleApp, c.ptr, ch.staleHandle⟩ ch
        rw [hrest] at hserve
        refine hadd.trans (Grows.trans ?_ hserve.1 rfl) rfl
        exact grows_updateSession _ _ fun _ => rfl
    · obtain ⟨rfl, rfl⟩ := Prod.mk.inj (Option.some.inj hcreate)
      obtain ⟨-, rfl⟩ := Prod.mk.inj hrest
      exact Grows.refl s

/-- **`tee_init_context`** adds a context. -/
theorem teeInitContext_grows {context : UInt32} {ch : Choice} {r : TeeResponse}
    (h : teeInitContext s context ch = some (r, t)) : Grows s t := by
  obtain ⟨⟨c, s'⟩, hcreate, hrest⟩ := Option.map_eq_some_iff.mp h
  have hs' : Grows s s' := by
    unfold teeContextCreate at hcreate
    split_ifs at hcreate
    · obtain ⟨id, -, hpair⟩ := Option.map_eq_some_iff.mp hcreate
      obtain ⟨-, rfl⟩ := Prod.mk.inj hpair
      exact ⟨List.subset_append_left _ _, fun x hx => Or.inl ⟨x, hx, rfl⟩⟩
    · obtain ⟨-, rfl⟩ := Prod.mk.inj (Option.some.inj hcreate)
      exact Grows.refl s
  simp only at hrest
  split_ifs at hrest
  · obtain ⟨-, rfl⟩ := Prod.mk.inj hrest
    exact hs'
  · cases c <;>
    · obtain ⟨-, rfl⟩ := Prod.mk.inj hrest
      exact hs'

theorem Grows.of_same (hc : t.contexts = s.contexts) (hs : t.sessions = s.sessions) :
    Grows s t := by
  refine ⟨?_, fun x hx => ?_⟩
  · rw [hc]
    exact List.Subset.refl _
  · rw [hs] at hx
    exact Or.inl ⟨x, hx, rfl⟩

/-- References stay in order where the contexts stay, and the memories too. -/
theorem RefsOk.of_grows (h : RefsOk w) (hg : Grows w.tee v.tee)
    (hm : ∀ m ∈ v.memories, m ∈ w.memories ∨ ∃ c ∈ w.tee.contexts, c.ptr = m.context) :
    RefsOk v := by
  constructor
  · intro x hx
    rcases hg.sessions x hx with ⟨y, hy, hyx⟩ | ⟨c, hc, hcx⟩
    · obtain ⟨c, hc, hcy⟩ := h.sessions y hy
      exact ⟨c, hg.contexts hc, hcy.trans hyx⟩
    · exact ⟨c, hg.contexts hc, hcx⟩
  · intro m hmv
    rcases hm m hmv with hmw | ⟨c, hc, hcm⟩
    · obtain ⟨c, hc, hcm⟩ := h.memories m hmw
      exact ⟨c, hg.contexts hc, hcm⟩
    · exact ⟨c, hg.contexts hc, hcm⟩

/-! ## 2. `tee_finalize_context` -/

/-- A context that was taken out is referred to by nobody, exactly when it was before. -/
theorem refsOk_finalize (h : RefsOk w) (context : UInt32) (ch : Choice) :
    RefsOk { w with tee := (teeFinalizeContext w.tee context).2 } ↔
      finalizesUnused w (.request (.finCtx context), ch) = true := by
  cases hc : teeContextFind w.tee context with
  | none =>
    simp only [teeFinalizeContext, finalizesUnused, hc]
    exact iff_of_true h trivial
  | some c =>
    have hmem : ∀ {x : TeeContext}, x ∈ (teeContextRemove w.tee c).contexts ↔
        x ∈ w.tee.contexts ∧ x.ptr ≠ c.ptr := by
      intro x
      simp [teeContextRemove]
    -- a pointer of the list is still one of it exactly when it is another one
    have hstill : ∀ p, (∃ x ∈ w.tee.contexts, x.ptr = p) →
        ((∃ x ∈ (teeContextRemove w.tee c).contexts, x.ptr = p) ↔ p ≠ c.ptr) := by
      rintro p ⟨x, hx, rfl⟩
      constructor
      · rintro ⟨y, hy, hyx⟩
        rw [← hyx]
        exact (hmem.mp hy).2
      · intro hne
        exact ⟨x, hmem.mpr ⟨hx, hne⟩, rfl⟩
    simp only [teeFinalizeContext, finalizesUnused, hc, Bool.and_eq_true, List.all_eq_true,
      bne_iff_ne]
    constructor
    · intro hok
      exact ⟨fun x hx => (hstill _ (h.sessions x hx)).mp (hok.sessions x hx),
        fun m hm => (hstill _ (h.memories m hm)).mp (hok.memories m hm)⟩
    · rintro ⟨hs, hm⟩
      exact ⟨fun x hx => (hstill _ (h.sessions x hx)).mpr (hs x hx),
        fun m hmw => (hstill _ (h.memories m hmw)).mpr (hm m hmw)⟩

/-! ## 3. Every request, and every run -/

/-- Registering looks up the context, releasing takes a memory out. -/
theorem teeRegisterMem_refs (h : RefsOk w) {context paddr size flags : UInt32} {ch : Choice}
    {r : TeeResponse} (hstep : teeRegisterMem w context paddr size flags ch = some (r, v)) :
    RefsOk v := by
  rw [teeRegisterMem] at hstep
  split_ifs at hstep
  · split at hstep
    · obtain ⟨-, rfl⟩ := Prod.mk.inj (Option.some.inj hstep)
      exact h
    · rename_i c hc
      obtain ⟨⟨m, w'⟩, hcreate, hrest⟩ := Option.map_eq_some_iff.mp hstep
      have hv : v = w' := by
        cases m <;> exact (Prod.mk.inj hrest).2.symm
      subst hv
      rw [teeMemoryCreate] at hcreate
      split at hcreate
      · obtain ⟨id, -, hpair⟩ := Option.map_eq_some_iff.mp hcreate
        obtain ⟨-, rfl⟩ := Prod.mk.inj hpair
        refine h.of_grows (Grows.refl _) fun m hm => ?_
        rcases List.mem_append.mp hm with hm | hm
        · exact Or.inl hm
        · obtain rfl := List.mem_singleton.mp hm
          exact Or.inr ⟨c, List.mem_of_find?_eq_some hc, rfl⟩
      · obtain ⟨-, rfl⟩ := Prod.mk.inj (Option.some.inj hcreate)
        exact h
  · obtain ⟨-, rfl⟩ := Prod.mk.inj (Option.some.inj hstep)
    exact h

theorem teeReleaseMem_refs (h : RefsOk w) (memid : UInt32) : RefsOk (teeReleaseMem w memid).2 := by
  unfold teeReleaseMem
  split
  · exact h
  · refine h.of_grows (Grows.refl _) fun m hm => Or.inl ?_
    exact (List.mem_filter.mp hm).1

/-- **One request** keeps the references in order exactly when it finalises no context that is
still referred to. -/
theorem teeTaskStep_refs (h : RefsOk w) {q : TeeCall × Choice}
    (hstep : stepOf (teeTaskStep processByUuid) w q v) :
    RefsOk v ↔ finalizesUnused w q = true := by
  obtain ⟨⟨r, v'⟩, htask, rfl⟩ := Option.map_eq_some_iff.mp hstep
  obtain ⟨call, ch⟩ := q
  cases call with
  | registerMem context paddr size flags => exact iff_of_true (teeRegisterMem_refs h htask) rfl
  | releaseMem memid =>
    have href := teeReleaseMem_refs h memid
    rw [Option.some.inj htask] at href
    exact iff_of_true href rfl
  | unknown =>
    obtain ⟨-, rfl⟩ := Prod.mk.inj (Option.some.inj htask)
    exact iff_of_true h rfl
  | request q =>
    obtain ⟨⟨r', t⟩, hserve, hpair⟩ := Option.map_eq_some_iff.mp htask
    obtain ⟨-, rfl⟩ := Prod.mk.inj hpair
    have hgrow : Grows w.tee t → RefsOk { w with tee := t } :=
      fun hg => h.of_grows hg fun m hm => Or.inl hm
    cases q with
    | initCtx context => exact iff_of_true (hgrow (teeInitContext_grows hserve)) rfl
    | finCtx context =>
      have hfin := refsOk_finalize h context ch
      rw [Option.some.inj hserve] at hfin
      exact hfin
    | openSession context uuid => exact iff_of_true (hgrow (teeOpenSession_grows hserve)) rfl
    | closeSession session ret =>
      have hkeep := teeCloseSession_keeps w.tee session ret ch
      rw [Option.some.inj hserve] at hkeep
      exact iff_of_true (hgrow (Grows.of_same hkeep.1 hkeep.2)) rfl
    | invokeCmd session command =>
      have hkeep := teeInvoke_keeps w.tee session command ch
      rw [Option.some.inj hserve] at hkeep
      exact iff_of_true (hgrow (Grows.of_same hkeep.1 hkeep.2)) rfl

/-- **References on every run.**  Whatever is requested and whatever the trustlets answer: the
context of every session and of every memory is in the list in every state reached, exactly when
no request finalises a context that is still referred to. -/
theorem refs_ok_iff (processByUuid : Nat → Option Nat) (qs : List (TeeCall × Choice))
    (w : TeeWorld) :
    Run (fun w q v => stepOf (teeTaskStep processByUuid) w q v ∧ RefsOk v) .init qs w ↔
      Run (Guarded (fun w q => finalizesUnused w q = true) (stepOf (teeTaskStep processByUuid)))
        .init qs w :=
  Run.keeps_iff (fun _ _ _ (h : True) _ => h)
    (fun _ _ _ _ h hstep => teeTaskStep_refs h hstep) trivial
    ⟨fun _ hx => absurd hx List.not_mem_nil, fun _ hm => absurd hm List.not_mem_nil⟩

/-- A memory is registered in a context, and the context is finalised. -/
def orphanOps : List (TeeCall × Choice) :=
  contextOps ++ [(.request (.finCtx 5), answering teeSuccess)]

/-- **The memory stays without its context.** -/
theorem fin_ctx_orphans_memory :
    ∃ w, Run (stepOf (teeTaskStep some)) .init orphanOps w ∧ ¬ RefsOk w := by
  have hrun : execOk (teeTaskStep some) (fun _ _ => true) .init orphanOps =
    some ⟨⟨[], [], 1, [.finalized 0]⟩, [⟨0, 5, 0, 0, 0x70000000, 0, 64⟩], 1⟩ := rfl
  refine ⟨_, (run_of_execOk hrun).of_guarded, fun hok => ?_⟩
  obtain ⟨c, hc, -⟩ := hok.memories _ List.mem_cons_self
  exact absurd hc List.not_mem_nil

end AndixOs.Tee
