import ModbusRTUBridge.DecisionStream
import ModbusRTUBridge.LedgerMap
/-!
# One record of the ledger

What an operation does once it has found its slot depends on that slot's record only:
`CompletionLedgerSlot.issue`, `closeAfterFailure` and `complete` are those parts of `recordIssued`,
`closePlanningAfterFailure` and `resolve`. The two sweeps and `clear` work on every record.
-/

namespace ModbusRTUBridge

namespace CompletionLedgerSlot

/-- `recordIssued` on the slot it found. -/
def issue (s : CompletionLedgerSlot) (request : PlannedWriteRequest) : LedgerIssueStatus × CompletionLedgerSlot :=
  if s.planningClosed then (.planningClosed, s)
  else if s.outstandingRequests ≠ 0 then (.outstandingRequestExists, s)
  else if request.delivery ≠ s.aggregate.delivery ∨ request.identity.fragmentIndex ≠ s.nextIssuedFragment then
    (.outOfOrder, s)
  else if s.nextIssuedFragment = 0xFFFF ∧ !request.finalFragment then (.fragmentIndexOverflow, s)
  else (.recorded, CompletionLedger.issuedSlot s request)

/-- `closePlanningAfterFailure` on it. -/
def closeAfterFailure (s : CompletionLedgerSlot) : Bool × CompletionLedgerSlot :=
  if s.observedOutcome = .pending ∨ s.observedOutcome = .applied then (false, s)
  else (true, { s with planningClosed := true })

/-- `resolve` on it. -/
def complete (s : CompletionLedgerSlot) (expected : PlannedWriteRequest) (observed : CompletionRecord)
    (session : SessionStateView) : LedgerResolution × CompletionLedgerSlot :=
  if !isKnownDownstreamOutcome observed.outcome then
    ({ status := .invalidOutcome, summary := CompletionLedger.summarize s }, s)
  else if s.outstandingRequests = 0 then
    ({ status := .noOutstandingRequest, summary := CompletionLedger.summarize s }, s)
  else if s.issuedRequest ≠ expected then
    ({ status := .requestMismatch, summary := CompletionLedger.summarize s }, s)
  else
    let result := resolveCompletion expected observed session s.aggregate
    if result.1.current then
      let resolved := CompletionLedger.resolvedSlot s result.2 observed.outcome
      ({ status := .resolved, decision := result.1, summary := CompletionLedger.summarize resolved }, resolved)
    else
      ({ status := .completionRejected, decision := result.1, summary := CompletionLedger.summarize s }, s)

variable {s : CompletionLedgerSlot}

/-- A record that accepts a request: it is the next fragment, and the one before is resolved. -/
structure AcceptsIssue (s : CompletionLedgerSlot) (request : PlannedWriteRequest) : Prop where
  unclosed : s.planningClosed = false
  idle : s.outstandingRequests = 0
  delivery : request.delivery = s.aggregate.delivery
  index : request.identity.fragmentIndex = s.nextIssuedFragment
  room : s.nextIssuedFragment = 0xFFFF → request.finalFragment = true

theorem issue_accepts {request : PlannedWriteRequest} (h : s.AcceptsIssue request) :
    s.issue request = (.recorded, CompletionLedger.issuedSlot s request) := by
  have hroom : ¬ (s.nextIssuedFragment = 0xFFFF ∧ (!request.finalFragment) = true) := by
    rintro ⟨hlast, hfinal⟩
    simp [h.room hlast] at hfinal
  unfold issue
  rw [if_neg (by simp [h.unclosed]), if_neg (by simp [h.idle]), if_neg (by simp [h.delivery, h.index]), if_neg hroom]

/-- **Recording a request**, both ways. -/
theorem issue_cases (s : CompletionLedgerSlot) (request : PlannedWriteRequest) :
    ((s.issue request).1 ≠ .recorded ∧ (s.issue request).2 = s) ∨
    (s.AcceptsIssue request ∧ s.issue request = (.recorded, CompletionLedger.issuedSlot s request)) := by
  by_cases ha : s.AcceptsIssue request
  · exact Or.inr ⟨ha, issue_accepts ha⟩
  refine Or.inl ?_
  unfold issue
  split
  · exact ⟨by simp, rfl⟩
  rename_i hopen
  split
  · exact ⟨by simp, rfl⟩
  rename_i hidle
  split
  · exact ⟨by simp, rfl⟩
  rename_i horder
  split
  · exact ⟨by simp, rfl⟩
  rename_i hroom
  simp only [Decidable.not_not, not_or] at hidle horder
  refine absurd ⟨Bool.eq_false_iff.2 hopen, hidle, horder.1, horder.2, ?_⟩ ha
  exact fun hlast => Classical.byContradiction fun hfinal => hroom ⟨hlast, by simpa using hfinal⟩

/-- An operation on a record leaves it with the identity it is filed under. -/
theorem issue_key (s : CompletionLedgerSlot) (request : PlannedWriteRequest) : (s.issue request).2.key = s.key := by
  rcases s.issue_cases request with ⟨_, hsame⟩ | ⟨_, heq⟩
  · rw [hsame]
  · rw [heq]
    rfl

theorem closeAfterFailure_key (s : CompletionLedgerSlot) : s.closeAfterFailure.2.key = s.key := by
  unfold closeAfterFailure
  split <;> rfl

/-- **A resolution**, both ways: the record is as it was, or the retained request was accepted. -/
theorem complete_cases (s : CompletionLedgerSlot) (expected : PlannedWriteRequest) (observed : CompletionRecord)
    (session : SessionStateView) :
    ((s.complete expected observed session).1.status ≠ .resolved ∧ (s.complete expected observed session).2 = s ∧
      ((s.complete expected observed session).1.status = .completionRejected →
        isKnownDownstreamOutcome observed.outcome = true ∧ s.outstandingRequests ≠ 0 ∧ s.issuedRequest = expected ∧
        (s.complete expected observed session).1.decision = (resolveCompletion expected observed session s.aggregate).1 ∧
        (resolveCompletion expected observed session s.aggregate).1.status ≠ .current)) ∨
    ((s.complete expected observed session).1.status = .resolved ∧ s.outstandingRequests ≠ 0 ∧ s.issuedRequest = expected ∧
      Accepts expected observed session s.aggregate ∧
      (s.complete expected observed session).2 =
        CompletionLedger.resolvedSlot s (currentAggregate expected observed s.aggregate) observed.outcome) := by
  unfold CompletionLedgerSlot.complete
  split
  · exact Or.inl ⟨by simp, rfl, by simp⟩
  rename_i hknown
  split
  · exact Or.inl ⟨by simp, rfl, by simp⟩
  rename_i hout
  split
  · exact Or.inl ⟨by simp, rfl, by simp⟩
  rename_i hsame
  simp only [Bool.not_eq_true', Bool.not_eq_false] at hknown
  rcases resolveCompletion_cases expected observed session s.aggregate with ⟨status, hne, hres⟩ | ⟨hacc, hres⟩
  · refine Or.inl ?_
    simpa [hres, rejectedDecision_current hne, hknown] using ⟨hout, Decidable.not_not.1 hsame, hne⟩
  · refine Or.inr ⟨?_, hout, Decidable.not_not.1 hsame, hacc, ?_⟩ <;> simp [hres, CompletionDecision.current]

theorem complete_key (s : CompletionLedgerSlot) (expected : PlannedWriteRequest) (observed : CompletionRecord)
    (session : SessionStateView) : (s.complete expected observed session).2.key = s.key := by
  rcases s.complete_cases expected observed session with ⟨_, hsame, _⟩ | ⟨_, _, _, _, hslot⟩
  · rw [hsame]
  · rw [hslot]
    rfl

end CompletionLedgerSlot

namespace CompletionLedger

variable {l : CompletionLedger} {w : WorkIdentity} {i : Nat} {s : CompletionLedgerSlot}

/-! ## The operations on one record -/

theorem recordIssued_of_find {request : PlannedWriteRequest} (hf : l.find request.identity.work = some i)
    (hok : ¬ ((!request.identity.valid) = true ∨ (!isAccepted request.delivery) = true)) :
    l.recordIssued request = (((l.slot i).issue request).1, l.setSlot i ((l.slot i).issue request).2) := by
  unfold recordIssued CompletionLedgerSlot.issue
  rw [if_neg hok, hf]
  simp only
  by_cases h1 : (l.slot i).planningClosed = true
  · rw [if_pos h1, if_pos h1, setSlot_slot]
  rw [if_neg h1, if_neg h1]
  by_cases h2 : (l.slot i).outstandingRequests ≠ 0
  · rw [if_pos h2, if_pos h2, setSlot_slot]
  rw [if_neg h2, if_neg h2]
  by_cases h3 : request.delivery ≠ (l.slot i).aggregate.delivery ∨
      request.identity.fragmentIndex ≠ (l.slot i).nextIssuedFragment
  · rw [if_pos h3, if_pos h3, setSlot_slot]
  rw [if_neg h3, if_neg h3]
  by_cases h4 : (l.slot i).nextIssuedFragment = 0xFFFF ∧ (!request.finalFragment) = true
  · rw [if_pos h4, if_pos h4, setSlot_slot]
  rw [if_neg h4, if_neg h4]

theorem closePlanningAfterFailure_of_find (hf : l.find w = some i) :
    l.closePlanningAfterFailure w =
      ((l.slot i).closeAfterFailure.1, l.setSlot i (l.slot i).closeAfterFailure.2) := by
  unfold closePlanningAfterFailure CompletionLedgerSlot.closeAfterFailure
  rw [hf]
  simp only
  by_cases h : (l.slot i).observedOutcome = .pending ∨ (l.slot i).observedOutcome = .applied
  · rw [if_pos h, if_pos h, setSlot_slot]
  · rw [if_neg h, if_neg h]

theorem resolve_of_find {expected : PlannedWriteRequest} (hf : l.find expected.identity.work = some i)
    (observed : CompletionRecord) (session : SessionStateView) :
    l.resolve expected observed session = (((l.slot i).complete expected observed session).1,
      l.setSlot i ((l.slot i).complete expected observed session).2) := by
  unfold resolve CompletionLedgerSlot.complete
  rw [hf]
  simp only
  by_cases h1 : (!isKnownDownstreamOutcome observed.outcome) = true
  · rw [if_pos h1, if_pos h1, setSlot_slot]
  rw [if_neg h1, if_neg h1]
  by_cases h2 : (l.slot i).outstandingRequests = 0
  · rw [if_pos h2, if_pos h2, setSlot_slot]
  rw [if_neg h2, if_neg h2]
  have hsame : (!samePlannedWriteRequest (l.slot i).issuedRequest expected) = true ↔ (l.slot i).issuedRequest ≠ expected := by
    rw [ne_eq, ← samePlannedWriteRequest_iff, Bool.not_eq_true', Bool.not_eq_true]
  by_cases h3 : (l.slot i).issuedRequest ≠ expected
  · rw [if_pos (hsame.2 h3), if_pos h3, setSlot_slot]
  rw [if_neg (fun h => h3 (hsame.1 h)), if_neg h3]
  obtain rfl : (l.slot i).issuedRequest = expected := Decidable.not_not.1 h3
  rcases resolveCompletion_cases (l.slot i).issuedRequest observed session (l.slot i).aggregate with
    ⟨status, hne, hres⟩ | ⟨_, hres⟩
  · -- a rejected completion leaves the aggregate as it was
    simp only [hres, rejectedDecision_current hne, Bool.not_false, if_true, Bool.false_eq_true, if_false]
  · simp only [hres, CompletionDecision.current, beq_self_eq_true, Bool.not_true, Bool.false_eq_true, if_false, if_true,
      setSlot_setSlot]

theorem recordIssued_noop {request : PlannedWriteRequest} (hs : (l.recordIssued request).1 ≠ .recorded) :
    (l.recordIssued request).2 = l := by
  by_cases hbad : (!request.identity.valid) = true ∨ (!isAccepted request.delivery) = true
  · rw [recordIssued, if_pos hbad]
  cases hf : l.find request.identity.work with
  | none => rw [recordIssued, if_neg hbad, hf]
  | some i =>
    rw [recordIssued_of_find hf hbad] at hs ⊢
    rcases (l.slot i).issue_cases request with ⟨_, hsame⟩ | ⟨_, heq⟩
    · simp only [hsame, setSlot_slot]
    · exact absurd (congrArg Prod.fst heq) hs

/-- `recordIssued` on a record that accepts the request. -/
theorem recordIssued_spec (h : l.WF) {request : PlannedWriteRequest} (hl : l.lookup request.identity.work = some s)
    (hid : request.identity.valid = true) (hacc : isAccepted request.delivery = true) (ha : s.AcceptsIssue request) :
    (l.recordIssued request).1 = .recorded ∧ (l.recordIssued request).2.WF ∧
    ∀ w', (l.recordIssued request).2.lookup w' =
      if w' = request.identity.work then some (issuedSlot s request) else l.lookup w' := by
  obtain ⟨i, hf, rfl⟩ := (lookup_eq_some_iff h).1 hl
  rw [recordIssued_of_find hf (by simp [hid, hacc]), CompletionLedgerSlot.issue_accepts ha]
  obtain ⟨hwf, hget⟩ := setSlot_spec h hf (s := issuedSlot (l.slot i) request) (find_some h hf).2.1
  exact ⟨rfl, hwf, hget⟩

theorem resolve_noop {expected : PlannedWriteRequest} {observed : CompletionRecord} {session : SessionStateView}
    (hs : (l.resolve expected observed session).1.status ≠ .resolved) :
    (l.resolve expected observed session).2 = l := by
  cases hf : l.find expected.identity.work with
  | none => rw [resolve, hf]
  | some i =>
    rw [resolve_of_find hf] at hs ⊢
    rcases (l.slot i).complete_cases expected observed session with ⟨_, hsame, _⟩ | ⟨heq, _⟩
    · simp only [hsame, setSlot_slot]
    · exact absurd heq hs

/-- `resolve` of the outstanding request of `s`: the aggregate's decision is the answer. -/
theorem resolve_spec (h : l.WF) (expected : PlannedWriteRequest) (observed : CompletionRecord)
    (session : SessionStateView) (hl : l.lookup expected.identity.work = some s)
    (hknown : isKnownDownstreamOutcome observed.outcome = true) (hout : s.outstandingRequests ≠ 0)
    (hissued : s.issuedRequest = expected) (hcur : (resolveCompletion expected observed session s.aggregate).1.current = true) :
    (l.resolve expected observed session).1 =
      { status := .resolved
        decision := (resolveCompletion expected observed session s.aggregate).1
        summary := summarize (resolvedSlot s (resolveCompletion expected observed session s.aggregate).2 observed.outcome) } ∧
    (l.resolve expected observed session).2.WF ∧
    ∀ w', (l.resolve expected observed session).2.lookup w' =
      if w' = expected.identity.work then
        some (resolvedSlot s (resolveCompletion expected observed session s.aggregate).2 observed.outcome)
      else l.lookup w' := by
  obtain ⟨i, hf, rfl⟩ := (lookup_eq_some_iff h).1 hl
  have hcomplete : (l.slot i).complete expected observed session =
      ({ status := .resolved
         decision := (resolveCompletion expected observed session (l.slot i).aggregate).1
         summary := summarize (resolvedSlot (l.slot i)
          (resolveCompletion expected observed session (l.slot i).aggregate).2 observed.outcome) },
        resolvedSlot (l.slot i) (resolveCompletion expected observed session (l.slot i).aggregate).2 observed.outcome) := by
    unfold CompletionLedgerSlot.complete
    rw [if_neg (by simp [hknown]), if_neg hout, if_neg (by simp [hissued])]
    simp only [hcur, if_true]
  have hkey := (l.slot i).complete_key expected observed session
  rw [hcomplete] at hkey
  obtain ⟨hwf, hget⟩ := setSlot_spec h hf (hkey.trans (find_some h hf).2.1)
  rw [resolve_of_find hf, hcomplete]
  exact ⟨rfl, hwf, hget⟩

/-- A rejected completion of the outstanding request. -/
theorem resolve_rejected (h : l.WF) (expected : PlannedWriteRequest) (observed : CompletionRecord)
    (session : SessionStateView) (hl : l.lookup expected.identity.work = some s)
    (hknown : isKnownDownstreamOutcome observed.outcome = true) (hout : s.outstandingRequests ≠ 0)
    (hissued : s.issuedRequest = expected)
    (hcur : (resolveCompletion expected observed session s.aggregate).1.current = false) :
    l.resolve expected observed session =
      ({ status := .completionRejected
         decision := (resolveCompletion expected observed session s.aggregate).1
         summary := summarize s }, l) := by
  obtain ⟨i, hf, rfl⟩ := (lookup_eq_some_iff h).1 hl
  rw [resolve_of_find hf, CompletionLedgerSlot.complete]
  rw [if_neg (by simp [hknown]), if_neg hout, if_neg (by simp [hissued])]
  simp only [hcur, Bool.false_eq_true, if_false, setSlot_slot]

theorem closePlanningAfterFailure_spec (h : l.WF) (hl : l.lookup w = some s) (h1 : s.observedOutcome ≠ .pending)
    (h2 : s.observedOutcome ≠ .applied) :
    (l.closePlanningAfterFailure w).2.WF ∧
    ∀ w', (l.closePlanningAfterFailure w).2.lookup w' =
      if w' = w then some { s with planningClosed := true } else l.lookup w' := by
  obtain ⟨i, hf, rfl⟩ := (lookup_eq_some_iff h).1 hl
  have hclose : (l.slot i).closeAfterFailure = (true, { l.slot i with planningClosed := true }) := by
    rw [CompletionLedgerSlot.closeAfterFailure, if_neg (by simp [h1, h2])]
  rw [closePlanningAfterFailure_of_find hf, hclose]
  exact setSlot_spec h hf (find_some h hf).2.1

/-! ## The operations on every record -/

theorem find_of_key (h : l.WF) (hi : i < l.capacity.toNat) (hk : (l.slot i).key = some w) : l.find w = some i := by
  rw [find_eq h]
  exact (SlotTable.index_eq_some h.distinct).2 ⟨hi, hk⟩

/-- What a sweep has done after the first `k` slots: the records that pass the test are gone from
them, and each of those was counted. -/
structure Swept (l : CompletionLedger) (test : CompletionLedgerSlot → Bool) (k : Nat) (r : UInt16 × CompletionLedger) :
    Prop where
  wf : r.2.WF
  capacity : r.2.capacity = l.capacity
  size : r.2.size.toNat + r.1.toNat = l.size.toNat
  slots : ∀ i < l.capacity.toNat,
    r.2.slot i = if i < k ∧ (l.slot i).occupied = true ∧ test (l.slot i) = true then {} else l.slot i

variable {test : CompletionLedgerSlot → Bool} {k : Nat} {r : UInt16 × CompletionLedger}

/-- One turn of the sweep. -/
theorem Swept.turn (h : Swept l test k r) (hk : k < l.capacity.toNat) :
    Swept l test (k + 1) (if (r.2.slot k).occupied && test (r.2.slot k) then (r.1 + 1, r.2.releaseSlot k) else r) := by
  have hslot : r.2.slot k = l.slot k := by
    rw [h.slots k hk, if_neg]
    exact fun hbad => Nat.lt_irrefl k hbad.1
  -- every other slot is as it was
  have hother : ∀ i < l.capacity.toNat, i ≠ k → r.2.slot i =
      if i < k + 1 ∧ (l.slot i).occupied = true ∧ test (l.slot i) = true then {} else l.slot i := by
    intro i hi hne
    have hlt : i < k + 1 ↔ i < k := by omega
    rw [h.slots i hi]
    simp only [hlt]
  rw [hslot]
  by_cases hgone : (l.slot k).occupied = true ∧ test (l.slot k) = true
  · rw [if_pos (by simpa using hgone)]
    have hkey : (r.2.slot k).key = some (l.slot k).aggregate.work := by
      rw [hslot]
      exact key_eq_some.2 ⟨hgone.1, rfl⟩
    have hk' : k < r.2.capacity.toNat := by
      rw [h.capacity]
      exact hk
    obtain ⟨hwf, hsize, _⟩ := releaseSlot_spec h.wf (find_of_key h.wf hk' hkey)
    have hput : (r.2.releaseSlot k).slot = SlotTable.put r.2.slot k {} := slot_setSlot (h.wf.slots_isSome hk')
    refine ⟨hwf, h.capacity, ?_, ?_⟩
    · have := h.size
      have := l.size.toNat_lt
      show (r.2.releaseSlot k).size.toNat + (r.1 + 1).toNat = l.size.toNat
      rw [UInt16.toNat_add]
      simp only [UInt16.toNat_one]
      omega
    · intro i hi
      show (r.2.releaseSlot k).slot i = _
      rw [hput]
      by_cases hik : i = k
      · subst hik
        rw [SlotTable.put_self, if_pos ⟨Nat.lt_succ_self i, hgone⟩]
      · rw [SlotTable.put_ne hik]
        exact hother i hi hik
  · rw [if_neg (by simpa using hgone)]
    refine ⟨h.wf, h.capacity, h.size, ?_⟩
    intro i hi
    by_cases hik : i = k
    · subst hik
      rw [hslot, if_neg fun hbad => hgone hbad.2]
    · exact hother i hi hik

/-- The first `k` turns. -/
theorem Swept.turns (h : l.WF) {turn : UInt16 × CompletionLedger → Nat → UInt16 × CompletionLedger}
    (hturn : ∀ r k, turn r k =
      if (r.2.slot k).occupied && test (r.2.slot k) then (r.1 + 1, r.2.releaseSlot k) else r)
    (hk : k ≤ l.capacity.toNat) : Swept l test k ((List.range k).foldl turn (0, l)) := by
  induction k with
  | zero => exact ⟨h, rfl, by simp, by simp⟩
  | succ k ih =>
    rw [List.range_succ, List.foldl_append, List.foldl_cons, List.foldl_nil, hturn]
    exact (ih (by omega)).turn hk

/-- **A sweep** removes the records that pass its test and counts them. -/
theorem sweep_swept (h : l.WF) (test : CompletionLedgerSlot → Bool) : Swept l test l.capacity.toNat (l.sweep test) := by
  unfold sweep
  exact Swept.turns h (fun _ _ => rfl) (Nat.le_refl _)

theorem Swept.lookup (h : l.WF) (hs : Swept l test l.capacity.toNat r) (w : WorkIdentity) :
    r.2.lookup w = (l.lookup w).filter fun s => !test s := by
  apply Option.ext
  intro s
  rw [CompletionLedger.lookup, SlotTable.get_eq_some hs.wf.distinct, Option.filter_eq_some_iff, CompletionLedger.lookup,
    SlotTable.get_eq_some h.distinct, hs.capacity]
  constructor
  · rintro ⟨i, hi, hk, rfl⟩
    rw [hs.slots i hi] at hk ⊢
    split at hk
    · cases hk
    · rename_i hkept
      rw [if_neg hkept]
      refine ⟨⟨i, hi, hk, rfl⟩, ?_⟩
      have hocc := (key_eq_some.1 hk).1
      cases ht : test (l.slot i) with
      | false => rfl
      | true => exact absurd ⟨hi, hocc, ht⟩ hkept
  · rintro ⟨⟨i, hi, hk, rfl⟩, ht⟩
    have hkept : r.2.slot i = l.slot i := by
      rw [hs.slots i hi, if_neg]
      rintro ⟨_, _, hbad⟩
      simp [hbad] at ht
    exact ⟨i, hi, by rw [hkept]; exact hk, hkept⟩

theorem clear_spec (h : l.validStorage = true) : l.clear.WF ∧ l.clear.size = 0 ∧ ∀ w, l.clear.lookup w = none := by
  have hstorage : l.capacity = 0 ∨ l.slots.isNone = false := by simpa [validStorage] using h
  obtain ⟨hwf, hnone⟩ := create_spec hstorage
  exact ⟨hwf, rfl, hnone⟩

end CompletionLedger

end ModbusRTUBridge
