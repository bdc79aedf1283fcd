import ModbusRTUBridge.Coherence
/-!
# What a completion does

`complete` accepts the retained action and nothing else. On a coherent facade the ledger then
knows the outstanding request, so only the session decides between settling the fragment and
dropping the work as stale.
-/

namespace ModbusRTUBridge

/-! ## The decision on an outstanding fragment -/

/-- The fragment ends its work: it was the last one, or it failed. -/
def retires (w : PlannedWriteRequest) (outcome : DownstreamOutcome) : Bool :=
  w.finalFragment || outcome != .applied

/-- The decision `resolveCompletion` takes on a work without failures so far. -/
def decisionFor (w : PlannedWriteRequest) (outcome : DownstreamOutcome) : CompletionDecision :=
  if outcome = .applied then
    ⟨.current, w.identity, .markAppliedRange, .unchanged,
      if w.finalFragment = true ∧ tracksPublicCompletion w.delivery = true then .workSucceeded else .none⟩
  else
    ⟨.current, w.identity, .none, .callerPolicyRequired,
      if tracksPublicCompletion w.delivery = true then .workFailed else .none⟩

/-- The summary a settling completion carries. -/
def summaryFor (w : PlannedWriteRequest) (outcome : DownstreamOutcome) : WorkCompletionSummary :=
  if retires w outcome then { work := w.identity.work, outcome := workOutcomeFor outcome, settled := true, drained := true }
  else { work := w.identity.work }

section
variable {w : PlannedWriteRequest} {outcome : DownstreamOutcome} {session : SessionStateView}

theorem rejection_busy (session : SessionStateView) (hid : w.identity.valid = true) (hacc : isAccepted w.delivery = true)
    (hknown : isKnownDownstreamOutcome outcome = true) :
    rejection w ⟨w.identity, outcome⟩ session (busyRecord w).aggregate =
      if workCurrent w.identity.work session = true then none else some .staleSession := by
  have hwork : w.identity.work.valid = true := by
    simp only [RequestIdentity.valid, Bool.and_eq_true] at hid
    exact hid.1
  have hagg : (busyRecord w).aggregate =
      { work := w.identity.work, delivery := w.delivery, nextFragmentIndex := w.identity.fragmentIndex } := rfl
  unfold rejection
  rw [hagg]
  rw [if_neg (by simp [CompletionAggregate.valid, hwork, hacc, hid]), if_neg (by simp), if_neg (by simp [hknown]),
    if_neg (by simp)]
  cases hcur : workCurrent w.identity.work session <;> simp

/-- The aggregate after the decision. -/
def aggregateFor (w : PlannedWriteRequest) (outcome : DownstreamOutcome) : CompletionAggregate :=
  { work := w.identity.work
    delivery := w.delivery
    nextFragmentIndex := if w.finalFragment then w.identity.fragmentIndex else w.identity.fragmentIndex + 1
    failed := outcome != .applied
    complete := w.finalFragment
    noticeEmitted := (decisionFor w outcome).notice != .none }

theorem resolveCompletion_busy (hid : w.identity.valid = true) (hacc : isAccepted w.delivery = true)
    (hidx : w.identity.fragmentIndex ≠ 0xFFFF) (hknown : isKnownDownstreamOutcome outcome = true)
    (hcur : workCurrent w.identity.work session = true) :
    resolveCompletion w ⟨w.identity, outcome⟩ session (busyRecord w).aggregate =
      (decisionFor w outcome, aggregateFor w outcome) := by
  have hrej := rejection_busy session hid hacc hknown
  rw [if_pos hcur] at hrej
  unfold resolveCompletion
  simp only [hrej]
  have hagg : (busyRecord w).aggregate =
      { work := w.identity.work, delivery := w.delivery, nextFragmentIndex := w.identity.fragmentIndex } := rfl
  simp only [hagg, decisionFor, aggregateFor]
  by_cases ho : outcome = .applied
  · cases hfin : w.finalFragment <;> cases htr : tracksPublicCompletion w.delivery <;> simp [ho, hidx]
  · cases hfin : w.finalFragment <;> cases htr : tracksPublicCompletion w.delivery <;> simp [ho, hidx]

theorem resolveCompletion_stale (hid : w.identity.valid = true) (hacc : isAccepted w.delivery = true)
    (hknown : isKnownDownstreamOutcome outcome = true) (hcur : workCurrent w.identity.work session = false) :
    resolveCompletion w ⟨w.identity, outcome⟩ session (busyRecord w).aggregate =
      (rejectedDecision .staleSession, (busyRecord w).aggregate) := by
  have hrej := rejection_busy session hid hacc hknown
  rw [if_neg (by simp [hcur])] at hrej
  unfold resolveCompletion
  simp only [hrej]

/-- The record once the fragment is resolved. -/
abbrev settledRecord (w : PlannedWriteRequest) (outcome : DownstreamOutcome) : CompletionLedgerSlot :=
  CompletionLedger.resolvedSlot (busyRecord w) (aggregateFor w outcome) outcome

/-- A failure outranks what was applied before. -/
theorem observed_settled (w : PlannedWriteRequest) (outcome : DownstreamOutcome) :
    (settledRecord w outcome).observedOutcome = workOutcomeFor outcome := by
  show combineWorkOutcomes (if w.identity.fragmentIndex = 0 then .pending else .applied) outcome = _
  unfold combineWorkOutcomes
  split <;> simp

theorem planningClosed_settled (w : PlannedWriteRequest) (outcome : DownstreamOutcome) :
    (settledRecord w outcome).planningClosed = w.finalFragment := by
  show (if w.finalFragment = true then true else false) = w.finalFragment
  cases w.finalFragment <;> rfl

/-- A closed record without outstanding requests reports what was observed. -/
theorem summarize_closed {r : CompletionLedgerSlot} (hclosed : r.planningClosed = true) (hout : r.outstandingRequests = 0) :
    CompletionLedger.summarize r =
      { work := r.aggregate.work, outcome := r.observedOutcome, settled := true, drained := true } := by
  simp [CompletionLedger.summarize, hclosed, hout]

/-- Releasing a closed record frees its work and no other. -/
theorem CompletionLedger.release_closed {l : CompletionLedger} (hl : l.WF) {w : WorkIdentity} {r : CompletionLedgerSlot}
    (hr : l.lookup w = some r) (hclosed : r.planningClosed = true) (hout : r.outstandingRequests = 0) :
    (l.release w).2.WF ∧ ∀ w', (l.release w).2.lookup w' = if w' = w then none else l.lookup w' := by
  obtain ⟨_, hwf, hlook⟩ := release_spec hl hr (by rw [summarize_closed hclosed hout])
  exact ⟨hwf, hlook⟩

/-- An open record without failures reports nothing yet. -/
theorem summarize_open {r : CompletionLedgerSlot} (hopen : r.planningClosed = false) (hout : r.outstandingRequests = 0)
    (hobs : r.observedOutcome = .applied) : CompletionLedger.summarize r = { work := r.aggregate.work } := by
  simp [CompletionLedger.summarize, hopen, hout, hobs]

theorem workOutcomeFor_failed (hknown : isKnownDownstreamOutcome outcome = true) (ho : outcome ≠ .applied) :
    workOutcomeFor outcome ≠ .pending ∧ workOutcomeFor outcome ≠ .applied := by
  cases outcome <;> simp_all [workOutcomeFor, isKnownDownstreamOutcome]

/-- With a fragment applied and more to come, the record is the idle one of the next index. -/
theorem settledRecord_progress {s : StoreForwardWorkSlot} {a : StoreForwardAction} {p : ForwardPlanner}
    (hi : s.Issued p a) (hfin : a.write.finalFragment = false) : settledRecord a.write .applied = s.idleRecord := by
  obtain ⟨h1, h2, h3⟩ := hi.index_eq
  have hobs := observed_settled a.write .applied
  have hclosed := planningClosed_settled a.write .applied
  simp only [StoreForwardWorkSlot.idleRecord, recordAt, ← hi.work_eq, ← hi.delivery_eq, h2, if_false]
  rw [show settledRecord a.write .applied = { settledRecord a.write .applied with
    observedOutcome := workOutcomeFor .applied, planningClosed := a.write.finalFragment } by rw [← hobs, ← hclosed]]
  simp [CompletionLedger.resolvedSlot, aggregateFor, decisionFor, busyRecord, CompletionLedger.issuedSlot, recordAt, hfin,
    workOutcomeFor, h1]

end

namespace StoreForwardBridge

variable {b : StoreForwardBridge} {a : StoreForwardAction} {outcome : DownstreamOutcome} {session : SessionStateView}

/-! ## Refusals -/

/-- Anything but a known outcome of the retained action is refused, and nothing changes. -/
theorem complete_refused (session : SessionStateView)
    (h : ¬ (b.inFlight = true ∧ b.inFlightAction = a ∧ isKnownDownstreamOutcome outcome = true)) :
    ((b.complete a outcome session).1.status = .noActionInFlight ∨ (b.complete a outcome session).1.status = .actionMismatch ∨
      (b.complete a outcome session).1.status = .invalidOutcome) ∧
    (b.complete a outcome session).1.decision = {} ∧ (b.complete a outcome session).1.workRetired = false ∧
    (b.complete a outcome session).2 = b := by
  unfold complete
  simp only
  split
  · exact ⟨Or.inl rfl, rfl, rfl, rfl⟩
  rename_i hf
  split
  · exact ⟨Or.inr (Or.inl rfl), rfl, rfl, rfl⟩
  rename_i hsame
  split
  · exact ⟨Or.inr (Or.inr rfl), rfl, rfl, rfl⟩
  rename_i hk
  simp only [Bool.not_eq_true', Bool.not_eq_false, sameStoreForwardAction_iff] at hf hsame hk
  exact absurd ⟨hf, hsame.symm, hk⟩ h

/-- The facade with nothing in flight. -/
def landed (b : StoreForwardBridge) : StoreForwardBridge := b.clearInFlight.advanceRevision

theorem complete_poll (hf : b.inFlight = true) (ha : b.inFlightAction = a) (hk : a.kind = .poll)
    (hknown : isKnownDownstreamOutcome outcome = true) :
    b.complete a outcome session =
      ({ status := .completed, kind := .poll, outcome, workContext := a.workContext }, b.landed) := by
  subst ha
  simp [complete, hf, hknown, hk, landed]

/-! ## The outstanding write -/

/-- What `complete` reports for a settled fragment. -/
def settledResult (a : StoreForwardAction) (outcome : DownstreamOutcome) : StoreForwardCompletion :=
  { status := .completed
    kind := .forwardWrite
    outcome
    decision := decisionFor a.write outcome
    work := summaryFor a.write outcome
    workRetired := retires a.write outcome
    workContext := a.workContext }

/-- What it reports for a work whose session is gone. -/
def staleResult (a : StoreForwardAction) (outcome : DownstreamOutcome) : StoreForwardCompletion :=
  { status := .staleSession
    kind := .forwardWrite
    outcome
    decision := rejectedDecision .staleSession
    work := CompletionLedger.summarize (busyRecord a.write)
    workRetired := true
    workContext := a.workContext }

/-- The front slot of an outstanding write and what is known about it. -/
theorem Coherent.front_of_outstanding (h : b.Coherent) (ho : b.outstanding = some a) :
    ∃ s rest, b.queue = s :: rest ∧ s.Issued b.forwardPlanner a ∧ b.records s.workIdentity = some (busyRecord a.write) ∧
      b.inFlightWork = s.workIdentity := by
  cases hq : b.queue with
  | nil => exact absurd hq (h.filed.owner (by rw [ho]; rfl))
  | cons s rest =>
    have hf := h.filed
    rw [hq, ho] at hf
    exact ⟨s, rest, rfl, hf.front_cons.1, hf.front_cons.2, (h.owner a ho).trans hf.front_cons.1.work_eq⟩

/-- The same, for a front slot already known. -/
theorem Coherent.outstanding_front (h : b.Coherent) (ho : b.outstanding = some a) {s : StoreForwardWorkSlot}
    {rest : List StoreForwardWorkSlot} (hq : b.queue = s :: rest) :
    s.Issued b.forwardPlanner a ∧ b.records s.workIdentity = some (busyRecord a.write) ∧
      b.inFlightWork = s.workIdentity := by
  obtain ⟨s', rest', hq', hfront⟩ := h.front_of_outstanding ho
  obtain ⟨rfl, rfl⟩ : s' = s ∧ rest' = rest := by rw [hq] at hq'; cases hq'; exact ⟨rfl, rfl⟩
  exact hfront

theorem popFrontIf_front (h : b.workQueue.WF) {s : StoreForwardWorkSlot} {rest : List StoreForwardWorkSlot}
    (hq : b.workQueue.toList = s :: rest) : b.popFrontIf s.workIdentity = { b with workQueue := b.workQueue.popFront.2 } := by
  simp [popFrontIf, FixedRingQueue.front_eq h, hq]

/-- `complete` on an outstanding write reaches the resolver. -/
theorem complete_write_eq (ho : b.outstanding = some a) (hwork : b.inFlightWork = a.write.identity.work)
    (hknown : isKnownDownstreamOutcome outcome = true) :
    b.complete a outcome session =
      b.completeWrite { kind := .forwardWrite, outcome, workContext := a.workContext } a outcome session := by
  obtain ⟨hf, rfl, hk⟩ := outstanding_eq_some.1 ho
  have hsame : sameStoreForwardAction b.inFlightAction b.inFlightAction = true := by simp
  simp [complete, hf, hsame, hknown, hk]

/-- `settle`, once the ledger holds the resolved record: the summary decides about retirement. -/
theorem settle_spec (outcome : DownstreamOutcome) {r : StoreForwardCompletion} {w : PlannedWriteRequest}
    {s : StoreForwardWorkSlot} {rest : List StoreForwardWorkSlot} (hl : b.completionLedger.WF) (hqwf : b.workQueue.WF)
    (hq : b.workQueue.toList = s :: rest) (hid : s.workIdentity = w.identity.work)
    (hrec : b.completionLedger.lookup w.identity.work = some (settledRecord w outcome))
    (hr : r.work = CompletionLedger.summarize (settledRecord w outcome))
    (hknown : isKnownDownstreamOutcome outcome = true) :
    ∃ l, b.settle r w.identity.work outcome =
        ({ r with
            status := .completed, work := summaryFor w outcome
            workRetired := if retires w outcome then true else r.workRetired },
          { b.landed with
            completionLedger := l
            workQueue := if retires w outcome then b.workQueue.popFront.2 else b.workQueue }) ∧
      l.WF ∧ ∀ w', l.lookup w' =
        if retires w outcome = true ∧ w' = w.identity.work then none else b.completionLedger.lookup w' := by
  have hobs := observed_settled w outcome
  have hclosed := planningClosed_settled w outcome
  have hout : (settledRecord w outcome).outstandingRequests = 0 := rfl
  have hwork : (settledRecord w outcome).aggregate.work = w.identity.work := rfl
  generalize settledRecord w outcome = record at hobs hclosed hout hwork hrec hr
  have hpop : ∀ l, ({ b.clearInFlight with completionLedger := l } : StoreForwardBridge).popFrontIf w.identity.work =
      { b.clearInFlight with completionLedger := l, workQueue := b.workQueue.popFront.2 } := fun l =>
    hid ▸ popFrontIf_front (b := { b.clearInFlight with completionLedger := l }) hqwf hq
  unfold settle
  by_cases ho : outcome = .applied
  · subst ho
    cases hfin : w.finalFragment with
    | true =>
      have hret : retires w .applied = true := by simp [retires, hfin]
      rw [hfin] at hclosed
      obtain ⟨hwf, hlook⟩ := CompletionLedger.release_closed hl hrec hclosed hout
      refine ⟨(b.completionLedger.release w.identity.work).2, ?_, hwf, by simpa [hret] using hlook⟩
      have hsum : r.work = summaryFor w .applied := by
        rw [hr, summarize_closed hclosed hout, hwork, hobs]
        simp [summaryFor, hret]
      have hdr : (summaryFor w .applied).drained = true := by simp [summaryFor, hret]
      simp only [hsum, hdr, hret, ne_eq, not_true_eq_false, if_false, if_true]
      rw [hpop]
      rfl
    | false =>
      have hret : retires w .applied = false := by simp [retires, hfin]
      rw [hfin] at hclosed
      refine ⟨b.completionLedger, ?_, hl, by simp [hret]⟩
      have hsum : r.work = summaryFor w .applied := by
        rw [hr, summarize_open hclosed hout hobs, hwork]
        simp [summaryFor, hret]
      have hdr : (summaryFor w .applied).drained = false := by simp [summaryFor, hret]
      simp only [hsum, hdr, hret, ne_eq, not_true_eq_false, if_false, Bool.false_eq_true]
      rfl
  · have hret : retires w outcome = true := by simp [retires, ho]
    obtain ⟨hp, ha⟩ := workOutcomeFor_failed hknown ho
    obtain ⟨hwf, hlook⟩ := CompletionLedger.closePlanningAfterFailure_spec hl hrec (hobs ▸ hp) (hobs ▸ ha)
    obtain ⟨l, hclose⟩ : ∃ l, (b.clearInFlight.completionLedger.closePlanningAfterFailure w.identity.work).2 = l :=
      ⟨_, rfl⟩
    rw [show (b.completionLedger.closePlanningAfterFailure w.identity.work).2 = l from hclose] at hwf hlook
    have hrec' : l.lookup w.identity.work = some { record with planningClosed := true } := by rw [hlook, if_pos rfl]
    have hsummary := CompletionLedger.summary_spec hwf hrec'
    obtain ⟨hwf', hlook'⟩ := CompletionLedger.release_closed hwf hrec' rfl hout
    refine ⟨(l.release w.identity.work).2, ?_, hwf', ?_⟩
    · have hsum : CompletionLedger.summarize { record with planningClosed := true } = summaryFor w outcome := by
        rw [summarize_closed (r := { record with planningClosed := true }) rfl hout]
        simp [summaryFor, hret, hwork, hobs]
      have hdr : (summaryFor w outcome).drained = true := by simp [summaryFor, hret]
      simp only [ne_eq, ho, not_false_eq_true, if_true, hclose, hsummary, hsum, hdr, hret]
      rw [hpop]
      rfl
    · intro w'
      rw [hlook', hlook]
      by_cases hw' : w' = w.identity.work <;> simp [hw', hret]

/-- **A current completion settles the fragment.** The work stays in front when the fragment
was applied and more is left, and is retired otherwise. -/
theorem complete_settles (h : b.Coherent) (ho : b.outstanding = some a) (hknown : isKnownDownstreamOutcome outcome = true)
    (hcur : workCurrent a.write.identity.work session = true) {s : StoreForwardWorkSlot} {rest : List StoreForwardWorkSlot}
    (hq : b.queue = s :: rest) :
    ∃ l, b.complete a outcome session =
        (settledResult a outcome,
          { b.landed with
            completionLedger := l
            workQueue := if retires a.write outcome then b.workQueue.popFront.2 else b.workQueue }) ∧
      l.WF ∧ l.lookup = b.records.file s.workIdentity (if retires a.write outcome then none else some s.idleRecord) := by
  obtain ⟨hi, hrec, hown⟩ := h.outstanding_front ho hq
  have hwork := hi.work_eq
  have hacc : isAccepted a.write.delivery = true := by rw [hi.delivery_eq]; exact hi.ok.accepted
  have hres := resolveCompletion_busy hi.identity_valid hacc hi.index_eq.2.2 hknown hcur
  have hdcur : (decisionFor a.write outcome).current = true := by unfold decisionFor; split <;> rfl
  obtain ⟨h1, h2, h3⟩ := CompletionLedger.resolve_spec h.ledger a.write
    ⟨a.write.identity, outcome⟩ session (s := busyRecord a.write) (hwork ▸ hrec) hknown
    (busyRecord_outstanding _) rfl (by rw [hres]; exact hdcur)
  rw [hres] at h1 h3
  obtain ⟨resolution, l, hl⟩ : ∃ r l, b.completionLedger.resolve a.write ⟨a.write.identity, outcome⟩ session = (r, l) :=
    ⟨_, _, rfl⟩
  rw [hl] at h1 h2 h3
  simp only at h1 h2 h3
  have hrec' : l.lookup a.write.identity.work = some (settledRecord a.write outcome) := by rw [h3, if_pos rfl]
  obtain ⟨l', hsettle, hwf', hlook'⟩ := settle_spec (b := { b with completionLedger := l }) outcome
    (r := { kind := .forwardWrite, outcome, workContext := a.workContext, decision := decisionFor a.write outcome,
            work := CompletionLedger.summarize (settledRecord a.write outcome) })
    h2 h.queue hq hwork.symm hrec' rfl hknown
  have hkind := kind_of_outstanding ho
  have hsame : sameWorkIdentity a.write.identity.work b.inFlightWork = true := by rw [hown, hwork]; simp
  refine ⟨l', ?_, hwf', ?_⟩
  · rw [complete_write_eq ho (hown.trans hwork.symm) hknown]
    unfold completeWrite
    rw [if_neg (by simp [hkind, hsame])]
    simp only [hl, h1, ne_eq, not_true_eq_false, if_false, hsettle]
    cases hret : retires a.write outcome <;> simp [settledResult, hret, landed, clearInFlight, advanceRevision]
  · funext w'
    rw [hlook']
    show (if _ then none else l.lookup w') = _
    rw [h3]
    by_cases hw : w' = s.workIdentity
    · subst hw
      rw [Records.file_self, hwork]
      cases hret : retires a.write outcome with
      | true => simp
      | false =>
        simp only [retires, Bool.or_eq_false_iff, bne_eq_false_iff_eq] at hret
        obtain ⟨hfin, rfl⟩ := hret
        simp only [if_true]
        exact congrArg some (settledRecord_progress hi hfin)
    · rw [Records.file_ne hw]
      rw [if_neg (by rw [hwork]; exact fun e => hw e.2), if_neg (by rw [hwork]; exact hw)]
      rfl

/-- **A completion of another session's work** drops the work and tells nobody. -/
theorem complete_stale (h : b.Coherent) (ho : b.outstanding = some a) (hknown : isKnownDownstreamOutcome outcome = true)
    (hcur : workCurrent a.write.identity.work session = false) {s : StoreForwardWorkSlot} {rest : List StoreForwardWorkSlot}
    (hq : b.queue = s :: rest) :
    ∃ l, b.complete a outcome session =
        (staleResult a outcome, { b.landed with completionLedger := l, workQueue := b.workQueue.popFront.2 }) ∧
      l.WF ∧ l.lookup = b.records.file s.workIdentity none := by
  obtain ⟨hi, hrec, hown⟩ := h.outstanding_front ho hq
  have hwork := hi.work_eq
  have hacc : isAccepted a.write.delivery = true := by rw [hi.delivery_eq]; exact hi.ok.accepted
  have hres := resolveCompletion_stale hi.identity_valid hacc hknown hcur
  have hresolve := CompletionLedger.resolve_rejected h.ledger a.write
    ⟨a.write.identity, outcome⟩ session (s := busyRecord a.write) (hwork ▸ hrec) hknown
    (busyRecord_outstanding _) rfl (by rw [hres]; rfl)
  rw [hres] at hresolve
  obtain ⟨_, hwf, hlook⟩ := CompletionLedger.abandon_spec h.ledger hrec
  have hkind := kind_of_outstanding ho
  have hsame : sameWorkIdentity a.write.identity.work b.inFlightWork = true := by rw [hown, hwork]; simp
  refine ⟨(b.completionLedger.abandon s.workIdentity).2, ?_, hwf, funext hlook⟩
  have hpop := popFrontIf_front (b := b.abandon s.workIdentity) h.queue hq
  rw [complete_write_eq ho (hown.trans hwork.symm) hknown]
  unfold completeWrite
  rw [if_neg (by simp [hkind, hsame])]
  simp only [hresolve, rejectedDecision, ne_eq, reduceCtorEq, not_false_eq_true, and_self, if_true]
  show (_, ((b.abandon b.inFlightWork).popFrontIf b.inFlightWork).clearInFlight.advanceRevision) = _
  rw [hown, hpop]
  rfl

/-- The facade after an outstanding fragment was settled. -/
def afterSettle (b : StoreForwardBridge) (a : StoreForwardAction) (outcome : DownstreamOutcome) (l : CompletionLedger) :
    StoreForwardBridge :=
  { b.landed with
    completionLedger := l
    workQueue := if retires a.write outcome then b.workQueue.popFront.2 else b.workQueue }

/-- The facade after the front work was dropped for its session. -/
def afterStale (b : StoreForwardBridge) (l : CompletionLedger) : StoreForwardBridge :=
  { b.landed with completionLedger := l, workQueue := b.workQueue.popFront.2 }

/-- **`complete` on a coherent facade.** -/
theorem complete_cases (h : b.Coherent) (a : StoreForwardAction) (outcome : DownstreamOutcome) (session : SessionStateView) :
    ¬ (b.inFlight = true ∧ b.inFlightAction = a ∧ isKnownDownstreamOutcome outcome = true) ∨
    (b.inFlight = true ∧ b.inFlightAction = a ∧ isKnownDownstreamOutcome outcome = true ∧
      ((a.kind = .poll ∧ b.complete a outcome session =
        ({ status := .completed, kind := .poll, outcome, workContext := a.workContext }, b.landed)) ∨
      (∃ s rest l, b.outstanding = some a ∧ b.queue = s :: rest ∧ workCurrent a.write.identity.work session = true ∧
        b.complete a outcome session = (settledResult a outcome, b.afterSettle a outcome l) ∧ l.WF ∧
        l.lookup = b.records.file s.workIdentity (if retires a.write outcome then none else some s.idleRecord)) ∨
      (∃ s rest l, b.outstanding = some a ∧ b.queue = s :: rest ∧ workCurrent a.write.identity.work session = false ∧
        b.complete a outcome session = (staleResult a outcome, b.afterStale l) ∧ l.WF ∧
        l.lookup = b.records.file s.workIdentity none))) := by
  by_cases hacc : b.inFlight = true ∧ b.inFlightAction = a ∧ isKnownDownstreamOutcome outcome = true
  · obtain ⟨hf, ha, hknown⟩ := hacc
    refine Or.inr ⟨hf, ha, hknown, ?_⟩
    rcases h.kinds hf with hk | hk
    · have ho : b.outstanding = some a := outstanding_eq_some.2 ⟨hf, ha, ha ▸ hk⟩
      obtain ⟨s, rest, hq, _⟩ := h.front_of_outstanding ho
      cases hcur : workCurrent a.write.identity.work session with
      | true =>
        obtain ⟨l, heq, hl, hlook⟩ := complete_settles h ho hknown hcur hq
        exact Or.inr (Or.inl ⟨s, rest, l, ho, hq, rfl, heq, hl, hlook⟩)
      | false =>
        obtain ⟨l, heq, hl, hlook⟩ := complete_stale h ho hknown hcur hq
        exact Or.inr (Or.inr ⟨s, rest, l, ho, hq, rfl, heq, hl, hlook⟩)
    · rw [ha] at hk
      exact Or.inl ⟨hk, complete_poll hf ha hk hknown⟩
  · exact Or.inl hacc

end StoreForwardBridge

end ModbusRTUBridge
