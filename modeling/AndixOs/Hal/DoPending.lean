/-
# `irq_do` leaves out nothing

The driver goes through a view word by word, and through a word only where a secure interrupt is pending in
it.  What is secure has a handler and the other way round (`irq_registered`), so the test of the word costs no
call: `irq_do` calls the handler of every registered interrupt in the order of the numbers, first by the one
view and then by the other (`irqDo_calls`).  This is for handlers that leave the controller alone.  Where they do
not, an interrupt that stays pending and registered until its turn is still not lost (`irqDo_reaches`).

`irq_get_pending` is about the others: it finds none exactly if everything that is pending has a handler
(`irqGetPending_cases`).
-/
import AndixOs.Hal.Interrupts

namespace AndixOs.Hal

open AndixOs AndixOs.Mm

variable {H : Type} {write : BitVec 32 → BitVec 32 → BitVec 32} {prog : H → Int → IrqState H → List (IrqOp H)}
variable {s s' s'' : IrqState H} {behind : Option H} {n : Nat} {view : ImxTzic → Nat → BitVec 32}

/-! ## 1. Handlers that leave the controller alone -/

/-- Acknowledging a source or raising a software interrupt. -/
def IrqOp.quiet : IrqOp H → Bool
  | .clear _ => true
  | .swint _ => true
  | _ => false

/-- No handler registers or frees, and the views stay while handlers run. -/
def Quiet (prog : H → Int → IrqState H → List (IrqOp H)) : Prop :=
  ∀ h irq s, ∀ op ∈ prog h irq s, op.quiet = true

/-- The handlers that were called, with their interrupts. -/
def callsOf (notes : List (IrqNote H)) : List (H × Int) :=
  notes.filterMap fun
    | .called h irq _ => some (h, irq)
    | _ => none

/-- The call of an interrupt, if a view has it and it is registered. -/
def callOf (view : ImxTzic → Nat → BitVec 32) (s : IrqState H) (n : Nat) : List (H × Int) :=
  if regBit (view s.tzic) n = true then (s.handlerTable n).toList.map fun h => (h, (n : Int)) else []

/-- The calls for all interrupts by a view, in their order. -/
def callsBy (view : ImxTzic → Nat → BitVec 32) (s : IrqState H) : List (H × Int) :=
  (List.range 128).flatMap (callOf view s)

/-- From one state to the other these calls were made, and what decides on calls stays. -/
structure Calling (s s' : IrqState H) (l : List (H × Int)) : Prop where
  ctrl : s'.irqCtrl = s.irqCtrl
  range : s'.minIrq = s.minIrq ∧ s'.maxIrq = s.maxIrq
  table : s'.handlerTable = s.handlerTable
  intsec : s'.tzic.intsec = s.tzic.intsec
  views : s'.tzic.hipending = s.tzic.hipending ∧ s'.tzic.pending = s.tzic.pending
  calls : callsOf s'.notes = callsOf s.notes ++ l

theorem Calling.refl (s : IrqState H) : Calling s s [] :=
  ⟨rfl, ⟨rfl, rfl⟩, rfl, rfl, ⟨rfl, rfl⟩, (List.append_nil _).symm⟩

theorem Calling.trans {l l' : List (H × Int)} (h : Calling s s' l) (h' : Calling s' s'' l') :
    Calling s s'' (l ++ l') := by
  refine ⟨h'.ctrl.trans h.ctrl, ⟨h'.range.1.trans h.range.1, h'.range.2.trans h.range.2⟩, h'.table.trans h.table,
    h'.intsec.trans h.intsec, ⟨h'.views.1.trans h.views.1, h'.views.2.trans h.views.2⟩, ?_⟩
  rw [h'.calls, h.calls, List.append_assoc]

theorem Calling.view_eq {l : List (H × Int)} (h : Calling s s' l) (hv : IsView view) : view s'.tzic = view s.tzic := by
  obtain rfl | rfl := hv
  · exact h.views.1
  · exact h.views.2

theorem Calling.callOf_eq {l : List (H × Int)} (h : Calling s s' l) (hv : IsView view) (n : Nat) :
    callOf view s' n = callOf view s n := by
  rw [callOf, callOf, h.view_eq hv, h.table]

/-- **The rule for a row of steps**, each of which keeps the invariant and makes its own calls. -/
theorem calling_exec {A : Type} (f : IrqState H → A → IrqState H) (g : A → List (H × Int))
    (Inv : IrqState H → Prop) {s0 : IrqState H} :
    ∀ (as : List A) (s : IrqState H) (l : List (H × Int)),
      (∀ s l, ∀ a ∈ as, Inv s → Calling s0 s l → Inv (f s a) ∧ Calling s (f s a) (g a)) → Inv s → Calling s0 s l →
        Calling s0 (exec f s as) (l ++ as.flatMap g)
  | [], s, l, _, _, h => by simpa [exec] using h
  | a :: as, s, l, hstep, hs, h => by
    obtain ⟨hinv, hone⟩ := hstep s l a List.mem_cons_self hs h
    have hrest := calling_exec f g Inv as (f s a) (l ++ g a) (fun s l b hb => hstep s l b (List.mem_cons_of_mem a hb)) hinv
      (h.trans hone)
    rwa [List.append_assoc] at hrest

theorem calling_row {A : Type} (f : IrqState H → A → IrqState H) (g : A → List (H × Int))
    (Inv : IrqState H → Prop) (as : List A) (hs : Inv s)
    (hstep : ∀ t l, ∀ a ∈ as, Inv t → Calling s t l → Inv (f t a) ∧ Calling t (f t a) (g a)) :
    Calling s (exec f s as) (as.flatMap g) := by
  have hall := calling_exec f g Inv as s [] hstep hs (Calling.refl s)
  rwa [List.nil_append] at hall

theorem calling_quiet (write : BitVec 32 → BitVec 32 → BitVec 32) (op : IrqOp H) (h : op.quiet = true)
    (s : IrqState H) : Calling s (irqOp write s op) [] := by
  cases op with
  | clear irq =>
    simp only [irqOp, irqRequest, imxTzicIoctl, imxTzicClearIrq, withIrq]
    split
    · exact Calling.refl s
    · split <;> exact ⟨rfl, ⟨rfl, rfl⟩, rfl, rfl, ⟨rfl, rfl⟩, (List.append_nil _).symm⟩
  | swint irq =>
    simp only [irqOp, irqRequest, imxTzicIoctl, imxTzicSwint]
    split
    · exact Calling.refl s
    · split <;> exact ⟨rfl, ⟨rfl, rfl⟩, rfl, rfl, ⟨rfl, rfl⟩, (List.append_nil _).symm⟩
  | _ => simp [IrqOp.quiet] at h

/-- Handling makes one call, or none where there is no handler. -/
theorem calling_handle (hq : Quiet prog) (hacc : s.accepts n) :
    Calling s (irqHandle write prog n s).2 ((s.handlerTable n).toList.map fun h => (h, (n : Int))) := by
  unfold irqHandle
  rw [if_neg (not_not.mpr hacc)]
  cases htab : s.handlerTable n with
  | none =>
    simp only [Int.toNat_natCast, htab]
    exact Calling.refl s
  | some hd =>
    simp only [Int.toNat_natCast, htab]
    have hcalled : Calling s { s with notes := s.notes ++ [.called hd n s.tzic] } [(hd, (n : Int))] :=
      ⟨rfl, ⟨rfl, rfl⟩, rfl, rfl, ⟨rfl, rfl⟩, by simp [callsOf]⟩
    have hops := calling_exec (irqOp write) (fun _ => []) (fun _ => True) (prog hd n s) _ _
      (fun t _ op hop _ _ => ⟨trivial, calling_quiet write op (hq hd n s op hop) t⟩) trivial hcalled
    rwa [List.flatMap_eq_nil_iff.mpr fun _ _ => rfl, List.append_nil] at hops

/-- One bit of a view. -/
theorem calling_bit (hq : Quiet prog) (hs : IrqInv behind s) {idx odx : Nat} (hidx : idx < 4) (hodx : odx < 32) :
    Calling s (doBits write prog view idx s odx) (callOf view s (32 * idx + odx)) := by
  rw [doBits_eq view hodx, callOf]
  split
  · exact calling_handle hq ((accepts_iff hs).mpr (by omega))
  · exact Calling.refl s

/-- A word that has a registered interrupt in a view passes the test. -/
theorem word_tested (hs : IrqInv behind s) (hn : n < 128) (hreg : (s.handlerTable n).isSome = true)
    (hbit : regBit (view s.tzic) n = true) : view s.tzic (n / 32) &&& ~~~s.tzic.intsec (n / 32) ≠ 0 := by
  intro hzero
  have hsec : regBit s.tzic.intsec n = false := (probeSecure_iff _ hn).mp ((hs.secure n hn).mpr hreg)
  have hlt : n % 32 < 32 := Nat.mod_lt _ (by decide)
  have hget : (view s.tzic (n / 32) &&& ~~~s.tzic.intsec (n / 32)).getLsbD (n % 32) = true := by
    rw [regBit] at hbit hsec
    rw [BitVec.getLsbD_and, BitVec.getLsbD_not, hbit, hsec, decide_eq_true hlt]
    rfl
  rw [hzero] at hget
  simp at hget

/-- In a word that does not pass the test no interrupt of the view has a handler. -/
theorem callOf_untested (hs : IrqInv behind s) {idx odx : Nat} (hidx : idx < 4) (hodx : odx < 32)
    (hzero : ¬ view s.tzic idx &&& ~~~s.tzic.intsec idx ≠ 0) : callOf view s (32 * idx + odx) = [] := by
  rw [callOf]
  split
  · rename_i hbit
    cases htab : s.handlerTable (32 * idx + odx) with
    | none => rfl
    | some hd =>
      have htest := word_tested hs (show 32 * idx + odx < 128 from by omega) (by rw [htab]; rfl) hbit
      rw [show (32 * idx + odx) / 32 = idx from by omega] at htest
      exact absurd htest hzero
  · rfl

/-- **A word**: its calls, whether it passes the test or not. -/
theorem calling_word (hwrite : ∀ old v, v &&& write old v = v) (hq : Quiet prog) (hv : IsView view)
    (hs : IrqInv behind s) {idx : Nat} (hidx : idx < 4) :
    Calling s (doWord write prog view s idx) ((List.range 32).flatMap fun odx => callOf view s (32 * idx + odx)) := by
  unfold doWord
  split
  · refine calling_row _ _ (IrqInv behind) _ hs fun t l odx hodx ht h => ?_
    have hlt := List.mem_range.mp hodx
    have hone : Calling t (doBits write prog view idx t odx) _ := calling_bit hq ht hidx hlt
    rw [h.callOf_eq hv] at hone
    exact ⟨ht.bits hwrite hv hidx hlt, hone⟩
  · rename_i hzero
    rw [List.flatMap_eq_nil_iff.mpr fun odx hodx => callOf_untested hs hidx (List.mem_range.mp hodx) hzero]
    exact Calling.refl s

/-- The calls by a view, word by word. -/
theorem callsBy_words (view : ImxTzic → Nat → BitVec 32) (s : IrqState H) : callsBy view s =
    (List.range 4).flatMap fun idx => (List.range 32).flatMap fun odx => callOf view s (32 * idx + odx) := by
  have hwords : List.range 128 =
      (List.range 4).flatMap fun idx => (List.range 32).map fun odx => 32 * idx + odx := by
    decide
  rw [callsBy, hwords, List.flatMap_assoc]
  simp only [List.flatMap_map]

/-- **A view**: the calls by it, in the order of the numbers. -/
theorem calling_view (hwrite : ∀ old v, v &&& write old v = v) (hq : Quiet prog) (hv : IsView view)
    (hs : IrqInv behind s) : Calling s (exec (doWord write prog view) s (List.range 4)) (callsBy view s) := by
  rw [callsBy_words]
  refine calling_row _ _ (IrqInv behind) _ hs fun t l idx hidx ht h => ?_
  have hone := calling_word hwrite hq hv ht (List.mem_range.mp hidx)
  simp only [h.callOf_eq hv] at hone
  exact ⟨ht.word hwrite hv (List.mem_range.mp hidx), hone⟩

theorem irqDo_eq (hs : IrqInv behind s) : irqDo write prog s = (0, imxTzicDoPending write prog s) := by
  rw [irqDo, hs.ctrl, if_neg (by decide)]

theorem calling_do (hwrite : ∀ old v, v &&& write old v = v) (hq : Quiet prog) (hs : IrqInv behind s) :
    Calling s (irqDo write prog s).2 (callsBy ImxTzic.hipending s ++ callsBy ImxTzic.pending s) := by
  have hfirst : Calling s (exec (doWord write prog ImxTzic.hipending) s (List.range 4)) _ :=
    calling_view hwrite hq (Or.inl rfl) hs
  have hinv : IrqInv behind (exec (doWord write prog ImxTzic.hipending) s (List.range 4)) :=
    exec_members _ _ (fun _ idx hidx hinv => hinv.word hwrite (Or.inl rfl) (List.mem_range.mp hidx)) hs
  have hsecond : Calling _ (imxTzicDoPending write prog s) _ := calling_view hwrite hq (Or.inr rfl) hinv
  have hsame : callsBy ImxTzic.pending (exec (doWord write prog ImxTzic.hipending) s (List.range 4)) =
      callsBy ImxTzic.pending s :=
    congrArg (List.range 128).flatMap (funext fun n => hfirst.callOf_eq (Or.inr rfl) n)
  rw [hsame] at hsecond
  rw [irqDo_eq hs]
  exact hfirst.trans hsecond

/-- **`irq_do`, exactly.**  In every state that is reached, with handlers that leave the controller alone, `irq_do`
calls the handler of each registered interrupt of the one view and then of the other, in the order of the numbers,
and no others; an interrupt that is in both is handled twice. -/
theorem irqDo_calls (write : BitVec 32 → BitVec 32 → BitVec 32) (hwrite : ∀ old v, v &&& write old v = v)
    (prog : H → Int → IrqState H → List (IrqOp H)) (hq : Quiet prog) (behind : Nat → Option H) (tzic : ImxTzic)
    (ops : List (Option (IrqOp H))) :
    let s := irqRun write prog behind tzic ops
    callsOf (irqDo write prog s).2.notes =
      callsOf s.notes ++ (callsBy ImxTzic.hipending s ++ callsBy ImxTzic.pending s) :=
  (calling_do hwrite hq (irqInv_run write prog behind tzic ops hwrite)).calls

/-- The watchdog's interrupt comes, with another one that nobody has registered in the same word. -/
theorem irqDo_calls_watchdog :
    let s := irqRun (fun _ v => v) (fun (_ : Unit) _ _ => []) (fun _ => none) tzicZero
      [some (.register 58 (some ())), some (.hardware (fun idx => if idx = 1 then 0x04000001 else 0) fun _ => 0)]
    callsOf (irqDo (fun _ v => v) (fun _ _ _ => []) s).2.notes =
      callsOf s.notes ++ (callsBy ImxTzic.hipending s ++ callsBy ImxTzic.pending s) :=
  irqDo_calls (fun _ v => v) (fun _ _ => BitVec.and_self) (fun _ _ _ => []) (fun _ _ _ _ => nofun) (fun _ => none)
    tzicZero _

/-! ## 2. Handlers that do not -/

/-- It neither frees the interrupt nor takes it out of the view. -/
def IrqOp.Keeps (view : ImxTzic → Nat → BitVec 32) (n : Nat) : IrqOp H → Prop
  | .free irq => irq ≠ n
  | .hardware pending hipending =>
    ∀ tzic : ImxTzic, regBit (view { tzic with pending := pending, hipending := hipending }) n = true
  | _ => True

/-- While the handlers of other interrupts run, this one stays registered and pending. -/
def Waits (prog : H → Int → IrqState H → List (IrqOp H)) (view : ImxTzic → Nat → BitVec 32) (n : Nat) : Prop :=
  ∀ h irq s, irq ≠ (n : Int) → ∀ op ∈ prog h irq s, op.Keeps view n

/-- The interrupt is registered and pending, and was before. -/
structure Waiting (behind : Option H) (view : ImxTzic → Nat → BitVec 32) (n : Nat) (h : H) (start : List (IrqNote H))
    (s : IrqState H) : Prop where
  inv : IrqInv behind s
  table : s.handlerTable n = some h
  bit : regBit (view s.tzic) n = true
  since : start <+: s.notes

/-- Its handler has been called since. -/
def Served (n : Nat) (h : H) (start : List (IrqNote H)) (s : IrqState H) : Prop :=
  ∃ l tzic, start ++ l ++ [.called h n tzic] <+: s.notes

section Waiting

variable {h : H} {start : List (IrqNote H)} {irq : Int}

theorem Served.mono (hs : Served n h start s) (hle : s.notes <+: s'.notes) : Served n h start s' := by
  obtain ⟨l, tzic, hl⟩ := hs
  exact ⟨l, tzic, hl.trans hle⟩

/-- Nothing takes a note back. -/
theorem notes_op (write : BitVec 32 → BitVec 32 → BitVec 32) (s : IrqState H) (op : IrqOp H) :
    s.notes <+: (irqOp write s op).notes := by
  cases op with
  | register irq handler =>
    cases handler <;> simp only [irqOp, irqRegisterHandler] <;> split_ifs <;>
      first | exact List.prefix_rfl | exact List.prefix_append _ _
  | free irq =>
    simp only [irqOp, irqFree]
    split_ifs <;> first | exact List.prefix_rfl | exact List.prefix_append _ _
  | clear irq =>
    simp only [irqOp, irqRequest]
    split_ifs <;> exact List.prefix_rfl
  | swint irq =>
    simp only [irqOp, irqRequest]
    split_ifs <;> exact List.prefix_rfl
  | hardware pending hipending => exact List.prefix_rfl

theorem notes_exec {A : Type} {f : IrqState H → A → IrqState H} (hf : ∀ s a, s.notes <+: (f s a).notes) :
    ∀ (as : List A) (s : IrqState H), s.notes <+: (exec f s as).notes
  | [], _ => List.prefix_rfl
  | a :: as, s => (hf s a).trans (notes_exec hf as (f s a))

/-- Nothing happens, or the handler is called and does what it does. -/
theorem irqHandle_cases (write : BitVec 32 → BitVec 32 → BitVec 32) (prog : H → Int → IrqState H → List (IrqOp H))
    (irq : Int) (s : IrqState H) : (irqHandle write prog irq s).2 = s ∨
      ∃ hd, s.handlerTable irq.toNat = some hd ∧ (irqHandle write prog irq s).2 =
        exec (irqOp write) { s with notes := s.notes ++ [.called hd irq s.tzic] } (prog hd irq s) := by
  unfold irqHandle
  split_ifs
  · cases s.handlerTable irq.toNat with
    | none => exact Or.inl rfl
    | some hd => exact Or.inr ⟨hd, rfl, rfl⟩
  · exact Or.inl rfl

theorem notes_handle (irq : Int) (s : IrqState H) : s.notes <+: (irqHandle write prog irq s).2.notes := by
  obtain heq | ⟨hd, -, heq⟩ := irqHandle_cases write prog irq s
  · rw [heq]
  · rw [heq]
    have hops := notes_exec (notes_op write) (prog hd irq s) { s with notes := s.notes ++ [.called hd irq s.tzic] }
    exact (List.prefix_append _ _).trans hops

theorem notes_bits (idx : Nat) (s : IrqState H) (odx : Nat) :
    s.notes <+: (doBits write prog view idx s odx).notes := by
  unfold doBits
  split
  · exact notes_handle _ _
  · exact List.prefix_rfl

theorem notes_word (s : IrqState H) (idx : Nat) : s.notes <+: (doWord write prog view s idx).notes := by
  unfold doWord
  split
  · exact notes_exec (notes_bits idx) _ _
  · exact List.prefix_rfl

/-- A handler stays, unless it is freed. -/
theorem table_op (hs : IrqInv behind s) (htab : s.handlerTable n = some h) {op : IrqOp H} (hop : op ≠ .free n) :
    (irqOp write s op).handlerTable n = some h := by
  cases op with
  | register irq handler =>
    obtain heq | heq | ⟨m, -, hd, -, hnone, heq⟩ := irqRegisterHandler_cases write hs irq handler
    · rwa [irqOp, heq]
    · rwa [irqOp, heq]
    · have hne : n ≠ m := fun hnm => by simp [← hnm, htab] at hnone
      rw [irqOp, heq]
      exact (Function.update_of_ne hne _ _).trans htab
  | free irq =>
    obtain heq | heq | ⟨m, -, hm, heq⟩ := irqFree_cases write hs irq
    · rwa [irqOp, heq]
    · rwa [irqOp, heq]
    · have hne : n ≠ m := fun hnm => hop (by rw [hm, hnm])
      rw [irqOp, heq]
      exact (Function.update_of_ne hne _ _).trans htab
  | clear irq => rwa [(calling_quiet write (.clear irq) rfl s).table]
  | swint irq => rwa [(calling_quiet write (.swint irq) rfl s).table]
  | hardware pending hipending => exact htab

/-- The views stay, unless the hardware changes them. -/
theorem view_op (hs : IrqInv behind s) (hv : IsView view) {op : IrqOp H}
    (hop : ∀ pending hipending, op ≠ .hardware pending hipending) :
    view (irqOp write s op).tzic = view s.tzic := by
  cases op with
  | register irq handler =>
    obtain heq | heq | ⟨m, hm, hd, -, -, heq⟩ := irqRegisterHandler_cases write hs irq handler
    · rw [irqOp, heq]
    · rw [irqOp, heq]
      obtain rfl | rfl := hv <;> rfl
    · rw [irqOp, heq, imxTzicCatch_nat write s.tzic hm]
      obtain rfl | rfl := hv <;> rfl
  | free irq =>
    obtain heq | heq | ⟨m, hm, -, heq⟩ := irqFree_cases write hs irq
    · rw [irqOp, heq]
    · rw [irqOp, heq]
      obtain rfl | rfl := hv <;> rfl
    · rw [irqOp, heq, imxTzicRelease_nat write s.tzic hm]
      obtain rfl | rfl := hv <;> rfl
  | clear irq => exact (calling_quiet write (.clear irq) rfl s).view_eq hv
  | swint irq => exact (calling_quiet write (.swint irq) rfl s).view_eq hv
  | hardware pending hipending => exact absurd rfl (hop pending hipending)

/-- What keeps the interrupt leaves it waiting. -/
theorem Waiting.step (hwrite : ∀ old v, v &&& write old v = v) (hv : IsView view)
    (hw : Waiting behind view n h start s) {op : IrqOp H} (hkeep : op.Keeps view n) :
    Waiting behind view n h start (irqOp write s op) := by
  refine ⟨hw.inv.op hwrite op, table_op hw.inv hw.table ?_, ?_, hw.since.trans (notes_op write s op)⟩
  · rintro rfl
    exact hkeep rfl
  · cases op with
    | hardware pending hipending => exact hkeep s.tzic
    | _ =>
      rw [view_op hw.inv hv (by simp)]
      exact hw.bit

/-- **Another interrupt is handled**, and this one goes on waiting. -/
theorem Waiting.other (hwrite : ∀ old v, v &&& write old v = v) (hv : IsView view) (hwaits : Waits prog view n)
    (hw : Waiting behind view n h start s) {m : Nat} (hm : m < 128) (hmn : m ≠ n)
    (hpend : regBit s.tzic.hipending m = true ∨ regBit s.tzic.pending m = true) :
    Waiting behind view n h start (irqHandle write prog m s).2 := by
  obtain heq | ⟨hd, htab, heq⟩ := irqHandle_cases write prog m s
  · rwa [heq]
  · rw [heq]
    have hcalled : Waiting behind view n h start { s with notes := s.notes ++ [.called hd m s.tzic] } :=
      ⟨hw.inv.called hm htab hpend, hw.table, hw.bit, hw.since.trans (List.prefix_append _ _)⟩
    exact exec_members _ _
      (fun t op hop ht => ht.step hwrite hv (hwaits hd m s (by omega) op hop)) hcalled

/-- **Its turn.** -/
theorem Waiting.served (hn : n < 128) (hw : Waiting behind view n h start s) :
    Served n h start (irqHandle write prog n s).2 := by
  have hacc : s.accepts n := (accepts_iff hw.inv).mpr (by omega)
  obtain ⟨l, hl⟩ := hw.since
  unfold irqHandle
  rw [if_neg (not_not.mpr hacc), Int.toNat_natCast, hw.table]
  refine ⟨l, s.tzic, ?_⟩
  rw [hl]
  exact notes_exec (notes_op write) (prog h n s) { s with notes := s.notes ++ [.called h n s.tzic] }

/-- It is waiting or its handler has been called. -/
def Turn (behind : Option H) (view : ImxTzic → Nat → BitVec 32) (n : Nat) (h : H) (start : List (IrqNote H))
    (s : IrqState H) : Prop :=
  Waiting behind view n h start s ∨ Served n h start s

/-- One bit of either view keeps the turn. -/
theorem Turn.bit (hwrite : ∀ old v, v &&& write old v = v) {view' : ImxTzic → Nat → BitVec 32} (hv : IsView view)
    (hv' : IsView view') (hwaits : Waits prog view n) (hn : n < 128) {idx odx : Nat} (hidx : idx < 4)
    (hodx : odx < 32) (ht : Turn behind view n h start s) :
    Turn behind view n h start (doBits write prog view' idx s odx) := by
  obtain hw | hserved := ht
  · rw [doBits_eq view' hodx]
    split
    · rename_i hbit
      by_cases hat : 32 * idx + odx = n
      · rw [hat]
        exact Or.inr (hw.served hn)
      · exact Or.inl (hw.other hwrite hv hwaits (by omega) hat (hv'.pending hbit))
    · exact Or.inl hw
  · exact Or.inr (hserved.mono (notes_bits idx s odx))

/-- **Its own bit.** -/
theorem Turn.own_bit (hn : n < 128) (ht : Turn behind view n h start s) :
    Served n h start (doBits write prog view (n / 32) s (n % 32)) := by
  have hat : 32 * (n / 32) + n % 32 = n := Nat.div_add_mod n 32
  obtain hw | hserved := ht
  · rw [doBits_eq view (Nat.mod_lt n (by decide)), hat, if_pos hw.bit]
    exact hw.served hn
  · exact hserved.mono (notes_bits _ s _)

/-- One word of either view keeps the turn. -/
theorem Turn.word (hwrite : ∀ old v, v &&& write old v = v) {view' : ImxTzic → Nat → BitVec 32} (hv : IsView view)
    (hv' : IsView view') (hwaits : Waits prog view n) (hn : n < 128) {idx : Nat} (hidx : idx < 4)
    (ht : Turn behind view n h start s) : Turn behind view n h start (doWord write prog view' s idx) := by
  unfold doWord
  split
  · exact exec_members _ _ (fun _ odx hodx ht => ht.bit hwrite hv hv' hwaits hn hidx (List.mem_range.mp hodx)) ht
  · exact ht

/-- **Its own word** passes the test, and then its bit is reached. -/
theorem Turn.own_word (hwrite : ∀ old v, v &&& write old v = v) (hv : IsView view) (hwaits : Waits prog view n)
    (hn : n < 128) (ht : Turn behind view n h start s) : Served n h start (doWord write prog view s (n / 32)) := by
  obtain hw | hserved := ht
  · have hkeep : ∀ t, ∀ odx ∈ List.range 32, Turn behind view n h start t →
        Turn behind view n h start (doBits write prog view (n / 32) t odx) :=
      fun _ odx hodx ht => ht.bit hwrite hv hv hwaits hn (by omega) (List.mem_range.mp hodx)
    rw [doWord, if_pos (word_tested hw.inv hn (by rw [hw.table]; rfl) hw.bit)]
    exact exec_reaches (List.mem_range.mpr (Nat.mod_lt n (by decide))) hkeep (fun _ ht => ht.own_bit hn)
      (fun t odx _ hd => hd.mono (notes_bits _ t odx)) (Or.inl hw)
  · exact hserved.mono (notes_word s _)

/-- **Its own view.** -/
theorem Turn.own_view (hwrite : ∀ old v, v &&& write old v = v) (hv : IsView view) (hwaits : Waits prog view n)
    (hn : n < 128) (ht : Turn behind view n h start s) :
    Served n h start (exec (doWord write prog view) s (List.range 4)) := by
  have hkeep : ∀ t, ∀ idx ∈ List.range 4, Turn behind view n h start t →
      Turn behind view n h start (doWord write prog view t idx) :=
    fun _ idx hidx ht => ht.word hwrite hv hv hwaits hn (List.mem_range.mp hidx)
  exact exec_reaches (List.mem_range.mpr (show n / 32 < 4 from by omega)) hkeep
    (fun _ ht => ht.own_word hwrite hv hwaits hn) (fun t idx _ hd => hd.mono (notes_word t idx)) ht

end Waiting

/-- **No interrupt is lost.**  In every state that is reached: an interrupt that is registered and pending is handled
by `irq_do`, whatever the handlers of other interrupts register, free, clear or raise, as long as they neither free
it nor make it go away from the view. -/
theorem irqDo_reaches (write : BitVec 32 → BitVec 32 → BitVec 32) (hwrite : ∀ old v, v &&& write old v = v)
    (prog : H → Int → IrqState H → List (IrqOp H)) (behind : Nat → Option H) (tzic : ImxTzic)
    (ops : List (Option (IrqOp H))) (view : ImxTzic → Nat → BitVec 32) (hv : IsView view) (n : Nat) (hn : n < 128)
    (h : H) (htab : (irqRun write prog behind tzic ops).handlerTable n = some h)
    (hbit : regBit (view (irqRun write prog behind tzic ops).tzic) n = true) (hwaits : Waits prog view n) :
    ∃ l at_, (irqRun write prog behind tzic ops).notes ++ l ++ [.called h n at_] <+:
      (irqDo write prog (irqRun write prog behind tzic ops)).2.notes := by
  have hs := irqInv_run write prog behind tzic ops hwrite
  have hturn : Turn (behind 128) view n h (irqRun write prog behind tzic ops).notes
      (irqRun write prog behind tzic ops) := Or.inl ⟨hs, htab, hbit, List.prefix_rfl⟩
  rw [irqDo_eq hs, imxTzicDoPending]
  obtain rfl | rfl := hv
  · exact (hturn.own_view hwrite (Or.inl rfl) hwaits hn).mono (notes_exec notes_word _ _)
  · have hkeep : ∀ t, ∀ idx ∈ List.range 4,
        Turn (behind 128) ImxTzic.pending n h (irqRun write prog behind tzic ops).notes t →
          Turn (behind 128) ImxTzic.pending n h (irqRun write prog behind tzic ops).notes
            (doWord write prog ImxTzic.hipending t idx) :=
      fun _ idx hidx ht => ht.word hwrite (Or.inr rfl) (Or.inl rfl) hwaits hn (List.mem_range.mp hidx)
    exact (exec_members _ _ hkeep hturn).own_view hwrite (Or.inr rfl) hwaits hn

/-- The watchdog's interrupt. -/
theorem irqDo_reaches_watchdog :
    let s := irqRun (fun _ v => v) (fun (_ : Unit) _ _ => []) (fun _ => none) tzicZero
      [some (.register 58 (some ())), some (.hardware (fun idx => if idx = 1 then 0x04000000 else 0) fun _ => 0)]
    ∃ l at_, s.notes ++ l ++ [.called () 58 at_] <+: (irqDo (fun _ v => v) (fun _ _ _ => []) s).2.notes :=
  irqDo_reaches (fun _ v => v) (fun _ _ => BitVec.and_self) (fun _ _ _ => []) (fun _ => none) tzicZero
    [some (.register 58 (some ())), some (.hardware (fun idx => if idx = 1 then 0x04000000 else 0) fun _ => 0)]
    ImxTzic.pending (Or.inr rfl) 58 (by decide) () rfl rfl (fun _ _ _ _ _ => nofun)

/-! ## 3. `irq_get_pending` -/

section GetPending

variable {tzic : ImxTzic} {reg intsec : Nat → BitVec 32} {irq : Int}

/-- A word with a bit. -/
theorem word_ne_zero {w : BitVec 32} : w ≠ 0 ↔ ∃ j < 32, w.getLsbD j = true := by
  constructor
  · intro h
    by_contra hno
    refine h (BitVec.eq_of_getLsbD_eq fun j hj => ?_)
    have hbit : ¬ w.getLsbD j = true := fun hb => hno ⟨j, hj, hb⟩
    simp [Bool.eq_false_iff.mpr hbit]
  · rintro ⟨j, -, hb⟩ rfl
    simp at hb

/-- A word of a view is searched if a non-secure interrupt is pending in it. -/
theorem searched_iff {idx : Nat} (hidx : idx < 4) : reg idx &&& intsec idx ≠ 0 ↔
    ∃ n < 128, n / 32 = idx ∧ regBit reg n = true ∧ regBit intsec n = true := by
  rw [word_ne_zero]
  constructor
  · rintro ⟨j, hj, hb⟩
    rw [BitVec.getLsbD_and, Bool.and_eq_true] at hb
    exact ⟨32 * idx + j, by omega, by omega, by rw [regBit_at hj, hb.1], by rw [regBit_at hj, hb.2]⟩
  · rintro ⟨n, -, rfl, hreg, hsec⟩
    rw [regBit] at hreg hsec
    exact ⟨n % 32, Nat.mod_lt _ (by decide), by rw [BitVec.getLsbD_and, hreg, hsec]; rfl⟩

/-- **The search**: it finds nothing exactly if no non-secure interrupt is pending, and else an interrupt that is
pending in the word of one. -/
theorem firstPending_cases (reg intsec : Nat → BitVec 32) :
    (firstPending reg intsec = none ∧ ∀ n < 128, regBit reg n = true → regBit intsec n = false) ∨
      ∃ n : Nat, n < 128 ∧ firstPending reg intsec = some (n : Int) ∧ regBit reg n = true ∧
        ∃ m < 128, m / 32 = n / 32 ∧ regBit reg m = true ∧ regBit intsec m = true := by
  cases hfirst : firstPending reg intsec with
  | none =>
    refine Or.inl ⟨rfl, fun n hn hreg => ?_⟩
    rw [firstPending, List.findSome?_eq_none_iff] at hfirst
    have hword := hfirst (n / 32) (List.mem_range.mpr (by omega))
    by_contra hsec
    rw [if_pos ((searched_iff (by omega)).mpr ⟨n, hn, rfl, hreg, by simpa using hsec⟩), Option.map_eq_none_iff,
      List.find?_eq_none] at hword
    have hbit := hword (n % 32) (List.mem_range.mpr (Nat.mod_lt _ (by decide)))
    exact hbit (decide_eq_true (regBit_eq hreg))
  | some irq =>
    rw [firstPending] at hfirst
    obtain ⟨idx, hidx, hword⟩ := List.exists_of_findSome?_eq_some hfirst
    split at hword
    · rename_i hsearched
      obtain ⟨odx, hfind, rfl⟩ := Option.map_eq_some_iff.mp hword
      have hodx := List.mem_range.mp (List.mem_of_find?_eq_some hfind)
      have hlt := List.mem_range.mp hidx
      obtain ⟨m, hm, hmidx, hmreg, hmsec⟩ := (searched_iff hlt).mp hsearched
      refine Or.inr ⟨32 * idx + odx, by omega, rfl, ?_, m, hm, by omega, hmreg, hmsec⟩
      have hbit := List.find?_some hfind
      rw [decide_eq_true_eq] at hbit
      rw [regBit_at hodx]
      exact (and_bit_ne_zero hodx).mp hbit
    · exact absurd hword (by simp)

/-- In a state where everything is in step, non-secure is without a handler. -/
theorem nonsecure_iff {n : Nat} (hs : IrqInv behind s) (hn : n < 128) :
    regBit s.tzic.intsec n = true ↔ s.handlerTable n = none := by
  have hsec := (probeSecure_iff s.tzic hn).symm.trans (hs.secure n hn)
  cases htab : s.handlerTable n <;> cases hbit : regBit s.tzic.intsec n <;> simp_all

/-- **`irq_get_pending`.**  In every state that is reached it says -1 exactly if everything that is pending has a
handler, and else gives an interrupt that is pending, though not always one without a handler: the first of a word
that has one. -/
theorem irqGetPending_cases (write : BitVec 32 → BitVec 32 → BitVec 32) (hwrite : ∀ old v, v &&& write old v = v)
    (prog : H → Int → IrqState H → List (IrqOp H)) (behind : Nat → Option H) (tzic : ImxTzic)
    (ops : List (Option (IrqOp H))) :
    let s := irqRun write prog behind tzic ops
    let pending n := regBit s.tzic.hipending n = true ∨ regBit s.tzic.pending n = true
    (irqGetPending write s = -1 ∧ ∀ n < 128, pending n → (s.handlerTable n).isSome) ∨
      ∃ n : Nat, n < 128 ∧ irqGetPending write s = n ∧ pending n ∧
        ∃ m < 128, m / 32 = n / 32 ∧ pending m ∧ s.handlerTable m = none := by
  intro s pending
  have hs : IrqInv (behind 128) s := irqInv_run write prog behind tzic ops hwrite
  have hget : irqGetPending write s = imxTzicGetPending s.tzic := by
    rw [irqGetPending, hs.ctrl, if_neg (by decide)]
    rfl
  have hsome {n : Nat} (hn : n < 128) (hsec : regBit s.tzic.intsec n = false) : (s.handlerTable n).isSome = true :=
    (hs.secure n hn).mp ((probeSecure_iff _ hn).mpr hsec)
  rw [hget, imxTzicGetPending]
  obtain ⟨hnone, hall⟩ | ⟨n, hn, hfirst, hreg, m, hm, hword, hmreg, hmsec⟩ :=
    firstPending_cases s.tzic.hipending s.tzic.intsec
  · rw [hnone]
    obtain ⟨hnone', hall'⟩ | ⟨n, hn, hfirst, hreg, m, hm, hword, hmreg, hmsec⟩ :=
      firstPending_cases s.tzic.pending s.tzic.intsec
    · rw [hnone']
      refine Or.inl ⟨rfl, fun n hn hp => hsome hn ?_⟩
      exact hp.elim (hall n hn) (hall' n hn)
    · rw [hfirst]
      exact Or.inr ⟨n, hn, rfl, Or.inr hreg, m, hm, hword, Or.inr hmreg, (nonsecure_iff hs hm).mp hmsec⟩
  · rw [hfirst]
    exact Or.inr ⟨n, hn, rfl, Or.inl hreg, m, hm, hword, Or.inl hmreg, (nonsecure_iff hs hm).mp hmsec⟩

/-- Two interrupts of a word, of which one is registered. -/
theorem irqGetPending_cases_watchdog :
    let s := irqRun (fun _ v => v) (fun (_ : Unit) _ _ => []) (fun _ => none) tzicZero
      [some (.register 58 (some ())), some (.hardware (fun idx => if idx = 1 then 0x84000000 else 0) fun _ => 0)]
    let pending n := regBit s.tzic.hipending n = true ∨ regBit s.tzic.pending n = true
    (irqGetPending (fun _ v => v) s = -1 ∧ ∀ n < 128, pending n → (s.handlerTable n).isSome) ∨
      ∃ n : Nat, n < 128 ∧ irqGetPending (fun _ v => v) s = n ∧ pending n ∧
        ∃ m < 128, m / 32 = n / 32 ∧ pending m ∧ s.handlerTable m = none :=
  irqGetPending_cases (fun _ v => v) (fun _ _ => BitVec.and_self) (fun _ _ _ => []) (fun _ => none) tzicZero _

end GetPending

end AndixOs.Hal
