import ModbusRTUBridge.LedgerModel
/-!
# What a record knows of its work

`WorkHistory` is what the callers did with one work since it was reserved: the requests they
recorded, the completions that were resolved, and whether planning was closed for a failure. It
is read off calls and results only. `Recalls` says how a record's counters, its retained request
and its outcome follow from it; every call on the record keeps that, whatever its arguments.
-/

namespace ModbusRTUBridge

structure WorkHistory where
  recorded : List PlannedWriteRequest := []
  resolved : List CompletionCall := []
  closed : Bool := false

namespace WorkHistory

/-- The final fragment was recorded. -/
def ended (h : WorkHistory) : Bool := h.recorded.any (·.finalFragment)

/-- The final fragment was resolved. -/
def finished (h : WorkHistory) : Bool := h.resolved.any (·.expected.finalFragment)

/-- What the downstream side reported, all in all. -/
def outcome (h : WorkHistory) : WorkCompletionOutcome :=
  h.resolved.foldl (fun o c => combineWorkOutcomes o c.observed.outcome) .pending

/-- One more call addressed to the work. -/
def after (h : WorkHistory) : LedgerCall → LedgerResult → WorkHistory
  | .reserve _ _, .reserve .reserved => {}
  | .recordIssued request, .recordIssued .recorded => { h with recorded := h.recorded ++ [request] }
  | .closePlanningAfterFailure _, .closePlanningAfterFailure true => { h with closed := true }
  | .resolve expected observed session, .resolve resolution =>
    if resolution.status = .resolved then { h with resolved := h.resolved ++ [⟨expected, observed, session⟩] } else h
  | _, _ => h

end WorkHistory

/-- The histories of all works, after one more call. -/
def noteCall (g : WorkIdentity → WorkHistory) (call : LedgerCall) (result : LedgerResult) : WorkIdentity → WorkHistory :=
  fun w => if call.addressee = some w then (g w).after call result else g w

/-! ## The order of certainty -/

/-- How much certainty an outcome has lost. -/
def WorkCompletionOutcome.rank : WorkCompletionOutcome → Nat
  | .pending => 0
  | .applied => 1
  | .definitelyNotSent => 2
  | .uncertainSend => 3
  | .terminalFailure => 4

/-- `combineWorkOutcomes` keeps one of the two, the less certain one. -/
theorem combineWorkOutcomes_cases (o : WorkCompletionOutcome) (x : DownstreamOutcome) :
    (combineWorkOutcomes o x = o ∨ combineWorkOutcomes o x = workOutcomeFor x) ∧
    o.rank ≤ (combineWorkOutcomes o x).rank ∧ (workOutcomeFor x).rank ≤ (combineWorkOutcomes o x).rank := by
  cases o <;> cases x <;> simp [combineWorkOutcomes, workOutcomeFor, WorkCompletionOutcome.rank]

theorem workOutcomeFor_ne_pending (x : DownstreamOutcome) : workOutcomeFor x ≠ .pending := by
  cases x <;> simp [workOutcomeFor]

theorem rank_le_one {o : WorkCompletionOutcome} : o.rank ≤ 1 ↔ o = .pending ∨ o = .applied := by
  cases o <;> decide

/-- **A fold of reports** ends with one of them, and none of them lost more. -/
theorem combined (cs : List CompletionCall) (o : WorkCompletionOutcome) :
    (cs.foldl (fun o c => combineWorkOutcomes o c.observed.outcome) o = o ∨
      ∃ c ∈ cs, cs.foldl (fun o c => combineWorkOutcomes o c.observed.outcome) o = workOutcomeFor c.observed.outcome) ∧
    o.rank ≤ (cs.foldl (fun o c => combineWorkOutcomes o c.observed.outcome) o).rank ∧
    ∀ c ∈ cs, (workOutcomeFor c.observed.outcome).rank ≤
      (cs.foldl (fun o c => combineWorkOutcomes o c.observed.outcome) o).rank := by
  induction cs generalizing o with
  | nil => simp
  | cons c cs ih =>
    obtain ⟨hfrom, hstart, hall⟩ := ih (combineWorkOutcomes o c.observed.outcome)
    obtain ⟨hpick, hleft, hright⟩ := combineWorkOutcomes_cases o c.observed.outcome
    rw [List.foldl_cons]
    refine ⟨?_, Nat.le_trans hleft hstart, ?_⟩
    · rcases hfrom with hfrom | ⟨c', hc', hfrom⟩
      · rw [hfrom]
        rcases hpick with hpick | hpick
        · exact Or.inl hpick
        · exact Or.inr ⟨c, List.mem_cons_self, hpick⟩
      · exact Or.inr ⟨c', List.mem_cons_of_mem c hc', hfrom⟩
    · intro c' hc'
      rcases List.mem_cons.1 hc' with rfl | hc'
      · exact Nat.le_trans hright hstart
      · exact hall c' hc'

namespace WorkHistory

variable {h : WorkHistory}

theorem outcome_pending : h.outcome = .pending ↔ h.resolved = [] := by
  constructor
  · intro hpending
    cases hr : h.resolved with
    | nil => rfl
    | cons c cs =>
      have hall := (combined h.resolved .pending).2.2 c (by simp [hr])
      change _ ≤ h.outcome.rank at hall
      rw [hpending] at hall
      cases hc : workOutcomeFor c.observed.outcome with
      | pending => exact absurd hc (workOutcomeFor_ne_pending _)
      | _ =>
        rw [hc] at hall
        exact absurd hall (by decide)
  · intro hr
    rw [outcome, hr]
    rfl

/-- What the outcome is, once something was resolved. -/
theorem outcome_worst (hne : h.resolved ≠ []) :
    (∃ c ∈ h.resolved, workOutcomeFor c.observed.outcome = h.outcome) ∧
    ∀ c ∈ h.resolved, (workOutcomeFor c.observed.outcome).rank ≤ h.outcome.rank := by
  obtain ⟨hfrom, _, hall⟩ := combined h.resolved .pending
  refine ⟨?_, hall⟩
  rcases hfrom with hfrom | ⟨c, hc, hfrom⟩
  · exact absurd (outcome_pending.1 hfrom) hne
  · exact ⟨c, hc, hfrom.symm⟩

/-- A failure shows in the outcome. -/
theorem outcome_failed : (∃ c ∈ h.resolved, ¬ c.applied) ↔ h.outcome ≠ .pending ∧ h.outcome ≠ .applied := by
  constructor
  · rintro ⟨c, hc, hfailed⟩
    have hle := (outcome_worst (List.ne_nil_of_mem hc)).2 c hc
    rw [← not_or, ← rank_le_one]
    intro hsmall
    rcases rank_le_one.1 (Nat.le_trans hle hsmall) with hbad | hbad
    · exact workOutcomeFor_ne_pending _ hbad
    · exact hfailed (workOutcomeFor_applied.1 hbad)
  · rintro ⟨hpending, happlied⟩
    obtain ⟨⟨c, hc, hfrom⟩, _⟩ := outcome_worst (fun hr => hpending (outcome_pending.2 hr))
    refine ⟨c, hc, ?_⟩
    intro hok
    rw [← hfrom] at happlied
    exact happlied (workOutcomeFor_applied.2 hok)

theorem outcome_applied : h.outcome = .applied ↔ h.resolved ≠ [] ∧ ∀ c ∈ h.resolved, c.applied := by
  constructor
  · intro happlied
    refine ⟨?_, ?_⟩
    · intro hr
      rw [outcome_pending.2 hr] at happlied
      cases happlied
    · intro c hc
      exact Classical.byContradiction fun hfailed => (outcome_failed.1 ⟨c, hc, hfailed⟩).2 happlied
  · rintro ⟨hne, hall⟩
    obtain ⟨⟨c, hc, hfrom⟩, _⟩ := outcome_worst hne
    rw [← hfrom]
    exact workOutcomeFor_applied.2 (hall c hc)

/-- Recording a request. -/
theorem ended_snoc (recorded : List PlannedWriteRequest) (request : PlannedWriteRequest) :
    (recorded ++ [request]).any (·.finalFragment) = (recorded.any (·.finalFragment) || request.finalFragment) := by
  simp

/-- Resolving one. -/
theorem outcome_snoc (cs : List CompletionCall) (c : CompletionCall) :
    (cs ++ [c]).foldl (fun o c => combineWorkOutcomes o c.observed.outcome) .pending =
      combineWorkOutcomes (cs.foldl (fun o c => combineWorkOutcomes o c.observed.outcome) .pending) c.observed.outcome := by
  rw [List.foldl_append]
  rfl

end WorkHistory

/-! ## What the record recalls -/

/-- The request recorded as number `k` of `total`. -/
structure RecordedAt (aggregate : CompletionAggregate) (total k : Nat) (request : PlannedWriteRequest) : Prop where
  valid : request.identity.valid = true
  work : request.identity.work = aggregate.work
  delivery : request.delivery = aggregate.delivery
  index : request.identity.fragmentIndex.toNat = k
  last : request.finalFragment = true → k + 1 = total

/-- The entries of a list that grew by one. -/
theorem snoc_cases {X : Type} {xs : List X} {x y : X} {k : Nat} (hk : (xs ++ [x])[k]? = some y) :
    xs[k]? = some y ∨ k = xs.length ∧ y = x := by
  rcases Nat.lt_trichotomy k xs.length with hlt | rfl | hgt
  · rw [List.getElem?_append_left hlt] at hk
    exact Or.inl hk
  · rw [List.getElem?_concat_length] at hk
    exact Or.inr ⟨rfl, (Option.some.inj hk).symm⟩
  · have hlen := (List.getElem?_eq_some_iff.1 hk).1
    rw [List.length_append, List.length_singleton] at hlen
    omega

/-- A fragment counter past one more fragment: it stands still at the final one. -/
theorem toNat_counter {n : UInt16} {final : Bool} (h : n = 0xFFFF → final = true) :
    (if final then n else n + 1).toNat + final.toNat = n.toNat + 1 := by
  cases final with
  | true => rfl
  | false =>
    have hne : n ≠ 0xFFFF := fun e => Bool.noConfusion (h e)
    simp only [Bool.false_eq_true, if_false, Bool.toNat_false, Nat.add_zero]
    exact toNat_succ hne

/-- A record and the history of its work. -/
structure Recalls (s : CompletionLedgerSlot) (h : WorkHistory) : Prop where
  valid : s.aggregate.valid = true
  recorded : ∀ (k : Nat) request, h.recorded[k]? = some request →
    RecordedAt s.aggregate h.recorded.length k request
  resolved : ∀ (k : Nat) c, h.resolved[k]? = some c → h.recorded[k]? = some c.expected ∧
    c.observed.identity = c.expected.identity ∧ workCurrent s.aggregate.work c.session = true
  one : s.outstandingRequests.toNat ≤ 1
  debt : s.outstandingRequests.toNat + h.resolved.length = h.recorded.length
  retained : s.outstandingRequests ≠ 0 → h.recorded[h.resolved.length]? = some s.issuedRequest
  issue : s.nextIssuedFragment.toNat + h.ended.toNat = h.recorded.length
  progress : s.aggregate.nextFragmentIndex.toNat + h.finished.toNat = h.resolved.length
  complete : s.aggregate.complete = h.finished
  planning : s.planningClosed = (h.ended || h.closed)
  closed : h.closed = true → ∃ c ∈ h.resolved, ¬ c.applied
  outcome : s.observedOutcome = h.outcome

theorem recalls_reserved {w : WorkIdentity} {d : IngressDelivery} (hw : w.valid = true) (hd : isAccepted d = true) :
    Recalls (CompletionLedger.reservedSlot w d) {} := by
  constructor <;> simp [CompletionLedger.reservedSlot, CompletionAggregate.valid, WorkHistory.ended, WorkHistory.finished,
    WorkHistory.outcome, hw, hd]

namespace Recalls

variable {s : CompletionLedgerSlot} {h : WorkHistory} {request expected : PlannedWriteRequest}
  {observed : CompletionRecord} {session : SessionStateView}

/-- With nothing outstanding, all that was recorded is resolved. -/
theorem settled_up (hr : Recalls s h) (hnone : s.outstandingRequests = 0) : h.resolved.length = h.recorded.length := by
  have hdebt := hr.debt
  rw [hnone] at hdebt
  simpa using hdebt

theorem outstanding_one (hr : Recalls s h) (hout : s.outstandingRequests ≠ 0) : s.outstandingRequests.toNat = 1 := by
  have hpos := toNat_pos.2 hout
  have hone := hr.one
  omega

/-- The final fragment is resolved after it was recorded. -/
theorem ended_of_finished (hr : Recalls s h) (hf : h.finished = true) : h.ended = true := by
  simp only [WorkHistory.finished, List.any_eq_true] at hf
  obtain ⟨c, hc, hfinal⟩ := hf
  obtain ⟨k, hk⟩ := List.getElem?_of_mem hc
  have hrec := (hr.resolved k c hk).1
  simp only [WorkHistory.ended, List.any_eq_true]
  exact ⟨c.expected, List.mem_of_getElem? hrec, hfinal⟩

/-- The request kept for resolution. -/
theorem retained_at (hr : Recalls s h) (hout : s.outstandingRequests ≠ 0) :
    RecordedAt s.aggregate h.recorded.length h.resolved.length s.issuedRequest :=
  hr.recorded _ _ (hr.retained hout)

/-- While a request is outstanding the final fragment is not resolved. -/
theorem unfinished (hr : Recalls s h) (hout : s.outstandingRequests ≠ 0) : h.finished = false := by
  rw [← Bool.not_eq_true]
  intro hf
  simp only [WorkHistory.finished, List.any_eq_true] at hf
  obtain ⟨c, hc, hfinal⟩ := hf
  obtain ⟨k, hk⟩ := List.getElem?_of_mem hc
  have hlast := (hr.recorded _ _ (hr.resolved k c hk).1).last hfinal
  have hlen := (List.getElem?_eq_some_iff.1 hk).1
  have hdebt := hr.debt
  have := hr.outstanding_one hout
  omega

/-- The outstanding request is the next one the aggregate waits for. -/
theorem retained_next (hr : Recalls s h) (hout : s.outstandingRequests ≠ 0) :
    s.issuedRequest.identity.fragmentIndex = s.aggregate.nextFragmentIndex := by
  have hindex := (hr.retained_at hout).index
  have hprogress := hr.progress
  rw [hr.unfinished hout] at hprogress
  exact UInt16.toNat.inj (by simpa [hindex] using hprogress.symm)

/-- It is final exactly if a final one was recorded. -/
theorem retained_final (hr : Recalls s h) (hout : s.outstandingRequests ≠ 0) :
    s.issuedRequest.finalFragment = h.ended := by
  rw [Bool.eq_iff_iff]
  simp only [WorkHistory.ended, List.any_eq_true]
  constructor
  · intro hfinal
    exact ⟨s.issuedRequest, List.mem_of_getElem? (hr.retained hout), hfinal⟩
  · rintro ⟨request, hmem, hfinal⟩
    obtain ⟨k, hk⟩ := List.getElem?_of_mem hmem
    have hlast := (hr.recorded k request hk).last hfinal
    have hdebt := hr.debt
    have := hr.outstanding_one hout
    obtain rfl : k = h.resolved.length := by omega
    rw [hr.retained hout] at hk
    cases hk
    exact hfinal

/-! ### The calls -/

/-- A request recorded on a record that accepts it. -/
theorem issued (hr : Recalls s h) (hvalid : request.identity.valid = true)
    (hwork : request.identity.work = s.aggregate.work) (ha : s.AcceptsIssue request) :
    Recalls (CompletionLedger.issuedSlot s request) { h with recorded := h.recorded ++ [request] } := by
  have hplanning := hr.planning
  rw [ha.unclosed] at hplanning
  obtain ⟨hended, hclosed⟩ : h.ended = false ∧ h.closed = false := by simpa using hplanning.symm
  have hissue := hr.issue
  rw [hended] at hissue
  simp only [Bool.toNat_false, Nat.add_zero] at hissue
  have hup := hr.settled_up ha.idle
  -- no request before this one was final
  have hnofinal : ∀ (k : Nat) earlier, h.recorded[k]? = some earlier → earlier.finalFragment = false := by
    intro k earlier hk
    have hany := hended
    simp only [WorkHistory.ended, List.any_eq_false, Bool.not_eq_true] at hany
    exact hany earlier (List.mem_of_getElem? hk)
  refine ⟨hr.valid, ?_, ?_, ?_, ?_, ?_, ?_, hr.progress, hr.complete, ?_, hr.closed, hr.outcome⟩
  · intro k r hk
    rcases snoc_cases hk with hk | ⟨rfl, rfl⟩
    · obtain ⟨h1, h2, h3, h4, _⟩ := hr.recorded k r hk
      refine ⟨h1, h2, h3, h4, ?_⟩
      intro hfinal
      rw [hnofinal k r hk] at hfinal
      cases hfinal
    · refine ⟨hvalid, hwork, ha.delivery, ?_, ?_⟩
      · rw [ha.index]
        exact hissue
      · intro _
        simp
  · intro k c hk
    obtain ⟨hrec, hrest⟩ := hr.resolved k c hk
    refine ⟨?_, hrest⟩
    have hlen := (List.getElem?_eq_some_iff.1 hrec).1
    show (h.recorded ++ [request])[k]? = _
    rw [List.getElem?_append_left hlen]
    exact hrec
  · exact Nat.le_refl 1
  · show 1 + h.resolved.length = (h.recorded ++ [request]).length
    rw [List.length_append, List.length_singleton, hup]
    omega
  · intro _
    show (h.recorded ++ [request])[h.resolved.length]? = some request
    rw [hup, List.getElem?_concat_length]
  · show (if request.finalFragment then s.nextIssuedFragment else s.nextIssuedFragment + 1).toNat +
      ((h.recorded ++ [request]).any (·.finalFragment)).toNat = (h.recorded ++ [request]).length
    replace hended : h.recorded.any (·.finalFragment) = false := hended
    rw [WorkHistory.ended_snoc, hended, Bool.false_or, List.length_append, List.length_singleton, ← hissue]
    exact toNat_counter ha.room
  · show (if request.finalFragment then true else s.planningClosed) =
      ((h.recorded ++ [request]).any (·.finalFragment) || h.closed)
    rw [WorkHistory.ended_snoc, ha.unclosed, hclosed]
    replace hended : h.recorded.any (·.finalFragment) = false := hended
    rw [hended]
    cases request.finalFragment <;> rfl

theorem issue_step (hr : Recalls s h) (hvalid : request.identity.valid = true)
    (hwork : request.identity.work = s.aggregate.work) :
    Recalls (s.issue request).2 (h.after (.recordIssued request) (.recordIssued (s.issue request).1)) := by
  rcases s.issue_cases request with ⟨hstatus, hsame⟩ | ⟨ha, heq⟩
  · have hafter : h.after (.recordIssued request) (.recordIssued (s.issue request).1) = h := by
      cases hs : (s.issue request).1 with
      | recorded => exact absurd hs hstatus
      | _ => rfl
    rw [hsame, hafter]
    exact hr
  · rw [heq]
    exact hr.issued hvalid hwork ha

theorem complete_step (hr : Recalls s h) :
    Recalls (s.complete expected observed session).2
      (h.after (.resolve expected observed session) (.resolve (s.complete expected observed session).1)) := by
  rcases s.complete_cases expected observed session with ⟨hne, hsame, _⟩ | ⟨heq, hout, rfl, hacc, hslot⟩
  · simp only [WorkHistory.after, if_neg hne, hsame]
    exact hr
  simp only [WorkHistory.after, if_pos heq, hslot]
  have hlen := hr.debt
  rw [hr.outstanding_one hout] at hlen
  have hprogress := hr.progress
  have hunfinished := hr.unfinished hout
  rw [hunfinished] at hprogress
  simp only [Bool.toNat_false, Nat.add_zero] at hprogress
  refine ⟨hr.valid, ?_, ?_, ?_, ?_, ?_, hr.issue, ?_, ?_, hr.planning, ?_, ?_⟩
  · intro k request hk
    obtain ⟨h1, h2, h3, h4, h5⟩ := hr.recorded k request hk
    exact ⟨h1, h2, h3, h4, h5⟩
  · intro k c hk
    rcases snoc_cases hk with hk | ⟨rfl, rfl⟩
    · exact hr.resolved k c hk
    · exact ⟨hr.retained hout, hacc.identity, hacc.session⟩
  · exact Nat.zero_le 1
  · show 0 + (h.resolved ++ [_]).length = h.recorded.length
    rw [List.length_append, List.length_singleton]
    omega
  · intro hbad
    exact absurd rfl hbad
  · show (if s.issuedRequest.finalFragment then s.aggregate.nextFragmentIndex
        else s.aggregate.nextFragmentIndex + 1).toNat + ((h.resolved ++ [_]).any (·.expected.finalFragment)).toNat =
      (h.resolved ++ [_]).length
    replace hunfinished : h.resolved.any (·.expected.finalFragment) = false := hunfinished
    rw [List.any_append, hunfinished, Bool.false_or, List.any_cons, List.any_nil, Bool.or_false, List.length_append,
      List.length_singleton, ← hprogress]
    exact toNat_counter hacc.room
  · show s.issuedRequest.finalFragment = (h.resolved ++ [_]).any (·.expected.finalFragment)
    replace hunfinished : h.resolved.any (·.expected.finalFragment) = false := hunfinished
    rw [List.any_append, hunfinished]
    simp
  · intro hclosed
    obtain ⟨c, hc, hfailed⟩ := hr.closed hclosed
    exact ⟨c, List.mem_append_left _ hc, hfailed⟩
  · show combineWorkOutcomes s.observedOutcome observed.outcome = _
    rw [hr.outcome]
    exact (WorkHistory.outcome_snoc h.resolved ⟨s.issuedRequest, observed, session⟩).symm

/-- The last index is only ever issued as the final fragment. -/
theorem room (hr : Recalls s h) (hout : s.outstandingRequests ≠ 0) (hlast : s.aggregate.nextFragmentIndex = 0xFFFF) :
    s.issuedRequest.finalFragment = true := by
  have hindex := (hr.retained_at hout).index
  rw [hr.retained_next hout, hlast] at hindex
  replace hindex : 65535 = h.resolved.length := hindex
  have hdebt := hr.debt
  rw [hr.outstanding_one hout] at hdebt
  have hissue := hr.issue
  have hlt := s.nextIssuedFragment.toNat_lt
  rw [hr.retained_final hout]
  cases hended : h.ended with
  | true => rfl
  | false =>
    rw [hended] at hissue
    simp only [Bool.toNat_false, Nat.add_zero] at hissue
    omega

/-- The record itself never disagrees with the request it kept: what is left to reject is the
report of another request, and a session in which the work is not current. -/
theorem decision_kept (hr : Recalls s h) (hout : s.outstandingRequests ≠ 0)
    (hknown : isKnownDownstreamOutcome observed.outcome = true) :
    (resolveCompletion s.issuedRequest observed session s.aggregate).1.status = .current ∨
    (resolveCompletion s.issuedRequest observed session s.aggregate).1.status = .identityMismatch ∨
    (resolveCompletion s.issuedRequest observed session s.aggregate).1.status = .staleSession := by
  have hkept := hr.retained_at hout
  have hcomplete := hr.complete
  rw [hr.unfinished hout] at hcomplete
  have hrej : rejection s.issuedRequest observed session s.aggregate =
      if !sameRequestIdentity s.issuedRequest.identity observed.identity then some .identityMismatch
      else if !workCurrent s.issuedRequest.identity.work session then some .staleSession
      else none := by
    unfold rejection
    rw [if_neg, hcomplete, if_neg Bool.false_ne_true, hknown, if_neg (by decide), hr.retained_next hout]
    · simp
    · simp [hr.valid, hkept.valid, hkept.work, hkept.delivery, sameWorkIdentity_iff]
  unfold resolveCompletion
  rw [hrej]
  split
  · rename_i hsome
    repeat' split at hsome
    all_goals cases hsome
    · exact Or.inr (Or.inl rfl)
    · exact Or.inr (Or.inr rfl)
  · refine Or.inl ?_
    have hroom := hr.room hout
    repeat' split
    all_goals simp_all

/-- **A rejected completion** leaves the record as it was. -/
theorem rejected (hr : Recalls s h) (hbad : (s.complete expected observed session).1.status = .completionRejected) :
    (s.complete expected observed session).2 = s ∧
    ((s.complete expected observed session).1.decision.status = .identityMismatch ∨
      (s.complete expected observed session).1.decision.status = .staleSession) := by
  rcases s.complete_cases expected observed session with ⟨_, hsame, hwhy⟩ | ⟨heq, _⟩
  · obtain ⟨hknown, hout, rfl, hdecision, hne⟩ := hwhy hbad
    rw [hdecision]
    exact ⟨hsame, (hr.decision_kept hout hknown).resolve_left hne⟩
  · rw [hbad] at heq
    cases heq

theorem close_step (hr : Recalls s h) {w : WorkIdentity} :
    Recalls s.closeAfterFailure.2
      (h.after (.closePlanningAfterFailure w) (.closePlanningAfterFailure s.closeAfterFailure.1)) := by
  unfold CompletionLedgerSlot.closeAfterFailure
  split
  · exact hr
  rename_i hfailed
  rw [hr.outcome, not_or] at hfailed
  refine ⟨hr.valid, hr.recorded, hr.resolved, hr.one, hr.debt, hr.retained, hr.issue, hr.progress, hr.complete, ?_, ?_,
    hr.outcome⟩
  · exact (Bool.or_true _).symm
  · intro _
    exact WorkHistory.outcome_failed.2 hfailed

end Recalls

end ModbusRTUBridge
