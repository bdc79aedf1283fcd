import ModbusRTUBridge.Coherence
import ModbusRTUBridge.Lib.Guard
/-!
# Admission and retirement of works

`admitWork` either changes nothing or appends one fresh slot and files its record; the three
retirement calls take works off the front together with their records.
-/

namespace ModbusRTUBridge

/-- A reservation that is refused leaves the ledger alone, whatever its state. -/
theorem CompletionLedger.reserve_noop {l : CompletionLedger} {w : WorkIdentity} {d : IngressDelivery}
    (h : (l.reserve w d).1 ≠ .reserved) : (l.reserve w d).2 = l := by
  unfold reserve at h ⊢
  refine Guard.skip (· ≠ .reserved) h fun _ h => Guard.skip (· ≠ .reserved) h fun _ h =>
    Guard.skip (· ≠ .reserved) h fun _ h => ?_
  split
  · rfl
  · rename_i i hfree
    simp [hfree] at h

namespace ForwardPlanner

variable {Value : Type} [AppliedPayload Value] {p : ForwardPlanner} {work : IngressWorkView Value}
  {session : SessionStateView}

theorem beginIn_ready (h : (p.beginIn work session).1 = .ready) :
    workCurrent work.identity session = true ∧ (p.begin work).1 = .ready ∧
    (p.beginIn work session).2 = startCursor work := by
  unfold beginIn at h ⊢
  split at h
  · cases h
  · rename_i hcur
    rw [if_neg hcur, begin_status_cursor, if_pos h]
    exact ⟨by simpa using hcur, h, rfl⟩

end ForwardPlanner

namespace StoreForwardBridge

variable {b : StoreForwardBridge} {session : SessionStateView} {ctx : Ptr}

section
variable {Value : Type} [AppliedPayload Value] {work : IngressWorkView Value}

/-- **A refused `admitWork` changes nothing**, on any facade. -/
theorem admitWork_refused (h : (b.admitWork work session ctx).1.status ≠ .admitted) :
    (b.admitWork work session ctx).2 = b := by
  unfold admitWork at h ⊢
  refine Guard.skip (·.status ≠ .admitted) h fun hvalid h => Guard.skip (·.status ≠ .admitted) h fun hfull h => ?_
  simp only at h ⊢
  apply Guard.skip (·.status ≠ .admitted) h
  intro _ h
  split
  · rename_i hres
    rw [CompletionLedger.reserve_noop hres]
  rename_i hres
  rw [if_neg hres] at h
  split
  · rename_i hpush
    simp only [StoreForwardBridge.validStorage, Bool.not_eq_true', Bool.not_eq_false, Bool.and_eq_true] at hvalid
    simp [FixedRingQueue.tryPush, hvalid.1, hfull] at hpush
  · rename_i hpush
    rw [if_neg hpush] at h
    exact absurd rfl h

/-- The slot a successful `admitWork` queues. -/
abbrev freshSlot (work : IngressWorkView Value) (ctx : Ptr) : StoreForwardWorkSlot :=
  .ofWork work (ForwardPlanner.startCursor work) ctx

/-- **`admitWork` on a coherent facade.** -/
theorem admitWork_cases [LawfulPayload Value] (h : b.Coherent) (work : IngressWorkView Value) (session : SessionStateView)
    (ctx : Ptr) :
    ((b.admitWork work session ctx).1.status ≠ .admitted ∧ (b.admitWork work session ctx).2 = b) ∨
    (workCurrent work.identity session = true ∧ (b.forwardPlanner.begin work).1 = .ready ∧
      b.forwardPlanner.Plannable work ∧ b.records work.identity = none ∧
      ∃ r q l, b.admitWork work session ctx =
          (r, { b with workQueue := q, completionLedger := l, revision := nextNonZeroSequence32 b.revision }) ∧
        r.status = .admitted ∧ q.WF ∧ q.toList = b.queue ++ [freshSlot work ctx] ∧ l.WF ∧
        l.lookup = b.records.file work.identity (some (freshSlot work ctx).idleRecord)) := by
  by_cases hst : (b.admitWork work session ctx).1.status = .admitted
  · right
    unfold admitWork at hst ⊢
    rw [if_neg (by simp [h.validStorage])] at hst ⊢
    split at hst
    · cases hst
    rename_i hfull
    rw [if_neg hfull]
    simp only at hst ⊢
    split at hst
    · cases hst
    rename_i hready
    rw [if_neg hready]
    split at hst
    · cases hst
    rename_i hres
    rw [if_neg hres]
    obtain ⟨hcur, hbegin, hcursor⟩ := ForwardPlanner.beginIn_ready (Decidable.not_not.1 hready)
    rw [hcursor] at hst ⊢
    rcases CompletionLedger.reserve_cases h.ledger work.identity work.delivery with ⟨hbad, _⟩ | ⟨_, _, _, hnone, hwf, hlook⟩
    · exact absurd (Decidable.not_not.1 hres) hbad
    obtain ⟨hpushed, hqwf, hqlist⟩ := FixedRingQueue.tryPush_spec h.queue (by simpa using hfull) (freshSlot work ctx)
    rw [if_neg (by simp [hpushed])]
    exact ⟨hcur, hbegin, ForwardPlanner.begin_ready h.routes hbegin, hnone, _, _, _, rfl, rfl, hqwf, hqlist, hwf,
      funext hlook⟩
  · exact Or.inl ⟨hst, admitWork_refused hst⟩

end

/-! ## Retirement without a completion -/

theorem discardOneStaleWork_refused (h : (b.discardOneStaleWork session).1 ≠ .retired) :
    (b.discardOneStaleWork session).2.2 = b := by
  unfold discardOneStaleWork at h ⊢
  split
  · rfl
  · rename_i hf
    rw [if_neg hf] at h
    split
    · rfl
    · rename_i front hfront
      simp only [hfront] at h
      split
      · rfl
      · rename_i hcur
        rw [if_neg hcur] at h
        exact absurd rfl h

theorem abandonFront_refused (h : b.abandonFront.1 ≠ .retired) : b.abandonFront.2.2 = b := by
  unfold abandonFront at h ⊢
  split
  · rfl
  · rename_i hf
    rw [if_neg hf] at h
    split
    · rfl
    · rename_i front hfront
      simp [hfront] at h

theorem reset_refused (h : b.reset.1 = false) : b.reset.2 = b := by
  unfold reset at h ⊢
  split
  · rfl
  · rename_i hf
    rw [if_neg hf] at h
    cases h

/-- The facade after its front work was retired with nothing in flight. -/
def afterRetire (b : StoreForwardBridge) (s : StoreForwardWorkSlot) : StoreForwardBridge :=
  { b with
    completionLedger := (b.completionLedger.abandon s.workIdentity).2
    workQueue := b.workQueue.popFront.2
    revision := nextNonZeroSequence32 b.revision }

/-- What a retirement hands back about `s`. -/
def retirementOf (s : StoreForwardWorkSlot) : StoreForwardRetirement := ⟨s.workIdentity, s.table, s.userContext⟩

theorem retireFront_eq (h : b.Coherent) {s : StoreForwardWorkSlot} {rest : List StoreForwardWorkSlot}
    (hq : b.queue = s :: rest) : b.retireFront = (retirementOf s, b.afterRetire s) := by
  unfold retireFront
  rw [h.front_eq, hq]
  rfl

theorem Coherent.record_of_idle (h : b.Coherent) (hf : b.inFlight = false) {s : StoreForwardWorkSlot}
    {rest : List StoreForwardWorkSlot} (hq : b.queue = s :: rest) : b.records s.workIdentity = some s.idleRecord := by
  have hfiled := h.filed
  rw [hq, outstanding_idle hf] at hfiled
  exact hfiled.front_cons.2

/-- `discardOneStaleWork` retires an idle front of another session. -/
theorem discardOneStaleWork_stale (h : b.Coherent) (hf : b.inFlight = false) {s : StoreForwardWorkSlot}
    {rest : List StoreForwardWorkSlot} (hq : b.queue = s :: rest) (hcur : workCurrent s.workIdentity session = false) :
    b.discardOneStaleWork session = (.retired, retirementOf s, b.afterRetire s) := by
  simp [discardOneStaleWork, hf, h.front_eq, hq, hcur, retireFront_eq h hq]

/-- **`discardOneStaleWork` on a coherent facade.** -/
theorem discardOneStaleWork_cases (h : b.Coherent) (session : SessionStateView) :
    ((b.discardOneStaleWork session).1 ≠ .retired ∧ (b.discardOneStaleWork session).2.2 = b) ∨
    (b.inFlight = false ∧ ∃ s rest, b.queue = s :: rest ∧ workCurrent s.workIdentity session = false ∧
      b.discardOneStaleWork session = (.retired, retirementOf s, b.afterRetire s)) := by
  by_cases hst : (b.discardOneStaleWork session).1 = .retired
  · right
    unfold discardOneStaleWork at hst
    split at hst
    · cases hst
    rename_i hf
    rw [h.front_eq] at hst
    cases hq : b.queue with
    | nil => rw [hq] at hst; cases hst
    | cons s rest =>
      simp only [hq, List.head?_cons] at hst
      split at hst
      · cases hst
      rename_i hcur
      have hidle : b.inFlight = false := by simpa using hf
      have hstale : workCurrent s.workIdentity session = false := by simpa using hcur
      exact ⟨hidle, s, rest, rfl, hstale, discardOneStaleWork_stale h hidle hq hstale⟩
  · exact Or.inl ⟨hst, discardOneStaleWork_refused hst⟩

/-- **`abandonFront` on a coherent facade.** -/
theorem abandonFront_cases (h : b.Coherent) :
    (b.abandonFront.1 ≠ .retired ∧ b.abandonFront.2.2 = b) ∨
    (b.inFlight = false ∧ ∃ s rest, b.queue = s :: rest ∧
      b.abandonFront = (.retired, retirementOf s, b.afterRetire s)) := by
  by_cases hst : b.abandonFront.1 = .retired
  · right
    unfold abandonFront at hst ⊢
    split at hst
    · cases hst
    rename_i hf
    rw [if_neg hf]
    rw [h.front_eq] at hst ⊢
    cases hq : b.queue with
    | nil => rw [hq] at hst; cases hst
    | cons s rest =>
      simp only [List.head?_cons]
      rw [retireFront_eq h hq]
      exact ⟨by simpa using hf, s, rest, rfl, rfl⟩
  · exact Or.inl ⟨hst, abandonFront_refused hst⟩

/-! ## `reset` -/

/-- Draining pops every work with its record; a turn for each is enough. -/
theorem drainQueue_spec (fuel : Nat) {b : StoreForwardBridge} (hq : b.workQueue.WF) (hl : b.completionLedger.WF)
    (hfiled : Filed b.forwardPlanner b.queue b.records none) (hfuel : b.queue.length ≤ fuel) :
    ∃ q l, drainQueue fuel b = { b with workQueue := q, completionLedger := l } ∧ q.WF ∧ q.toList = [] ∧ l.WF ∧
      l.lookup = fun _ => none := by
  have hempty : ∀ {b : StoreForwardBridge}, Filed b.forwardPlanner b.queue b.records none → b.queue = [] →
      b.completionLedger.lookup = fun _ => none := by
    intro b hfiled hnil
    funext w
    cases hr : b.completionLedger.lookup w with
    | none => rfl
    | some r =>
      have hmem := hfiled.keys w r hr
      rw [hnil] at hmem
      cases hmem
  induction fuel generalizing b with
  | zero =>
    have hnil : b.queue = [] := List.length_eq_zero_iff.1 (Nat.le_zero.1 hfuel)
    exact ⟨b.workQueue, b.completionLedger, rfl, hq, hnil, hl, hempty hfiled hnil⟩
  | succ fuel ih =>
    unfold drainQueue
    rw [FixedRingQueue.front_eq hq]
    cases hlist : b.queue with
    | nil =>
      have hnil : b.workQueue.toList = [] := hlist
      rw [hnil]
      exact ⟨b.workQueue, b.completionLedger, rfl, hq, hnil, hl, hempty hfiled hlist⟩
    | cons s rest =>
      have hcons : b.workQueue.toList = s :: rest := hlist
      rw [hlist] at hfiled hfuel
      obtain ⟨_, hqwf, hpop⟩ := FixedRingQueue.popFront_spec hq hcons
      obtain ⟨_, hlwf, hlook⟩ := CompletionLedger.abandon_spec hl hfiled.front_cons.2
      rw [hcons]
      simp only [List.head?_cons]
      have hfiled' := hfiled.pop
      rw [← show (b.abandon s.workIdentity).completionLedger.lookup = b.records.file s.workIdentity none from funext hlook,
        ← hpop] at hfiled'
      obtain ⟨q, l, heq, h1, h2, h3, h4⟩ := ih (b := { b.abandon s.workIdentity with workQueue := b.workQueue.popFront.2 })
        hqwf hlwf hfiled' (by show b.workQueue.popFront.2.toList.length ≤ fuel; rw [hpop]; simpa using hfuel)
      exact ⟨q, l, heq, h1, h2, h3, h4⟩

/-- **`reset` on a coherent facade.** -/
theorem reset_cases (h : b.Coherent) :
    (b.reset = (false, b) ∧ b.inFlight = true) ∨
    (b.inFlight = false ∧ ∃ q l, b.reset =
        (true, { b with
          workQueue := q, completionLedger := l, pollState := {}, revision := nextNonZeroSequence32 b.revision }) ∧
      q.WF ∧ q.toList = [] ∧ l.WF ∧ l.lookup = fun _ => none) := by
  cases hf : b.inFlight with
  | true => exact Or.inl ⟨by simp [reset, hf], rfl⟩
  | false =>
    have hfiled := h.filed
    rw [outstanding_idle hf] at hfiled
    obtain ⟨q, l, heq, h1, h2, h3, h4⟩ := drainQueue_spec b.workQueue.size.toNat h.queue h.ledger hfiled
      (Nat.le_of_eq (FixedRingQueue.length_toList _))
    refine Or.inr ⟨rfl, q, l, ?_, h1, h2, h3, h4⟩
    simp [reset, hf, heq, advanceRevision]

end StoreForwardBridge

end ModbusRTUBridge
