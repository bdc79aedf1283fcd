import ModbusRTUBridge.CompletionTransition
import ModbusRTUBridge.Lib.Machine
/-!
# One aggregate, any completion stream

`resolveCompletion` is called with whatever the downstream side reports. On one aggregate the
`Current` decisions are a sequence of fragments 0, 1, 2, … that stops at a final one, with at most
one notice; everything else is rejected and leaves no trace (`stream_safe`).
-/

namespace ModbusRTUBridge

/-! ## A `Current` decision -/

/-- The notice of a `Current` decision. -/
def currentNotice (expected : PlannedWriteRequest) (observed : CompletionRecord) (a : CompletionAggregate) :
    CompletionNotice :=
  if tracksPublicCompletion expected.delivery = true ∧ a.noticeEmitted = false then
    if observed.outcome ≠ .applied then .workFailed
    else if expected.finalFragment = true ∧ a.failed = false then .workSucceeded
    else .none
  else .none

/-- The aggregate past it. -/
def currentAggregate (expected : PlannedWriteRequest) (observed : CompletionRecord) (a : CompletionAggregate) :
    CompletionAggregate :=
  { a with
    failed := a.failed || observed.outcome != .applied
    complete := expected.finalFragment
    noticeEmitted := a.noticeEmitted || currentNotice expected observed a != .none
    nextFragmentIndex := if expected.finalFragment then a.nextFragmentIndex else a.nextFragmentIndex + 1 }

/-- What a `Current` decision went by. -/
structure Accepts (expected : PlannedWriteRequest) (observed : CompletionRecord) (session : SessionStateView)
    (a : CompletionAggregate) : Prop where
  unfinished : a.complete = false
  identity_valid : expected.identity.valid = true
  work : expected.identity.work = a.work
  delivery : expected.delivery = a.delivery
  known : isKnownDownstreamOutcome observed.outcome = true
  identity : observed.identity = expected.identity
  session : workCurrent a.work session = true
  index : expected.identity.fragmentIndex = a.nextFragmentIndex
  room : a.nextFragmentIndex = 0xFFFF → expected.finalFragment = true

section
variable {expected : PlannedWriteRequest} {observed : CompletionRecord} {session : SessionStateView}
  {a : CompletionAggregate}

theorem rejection_ne_current {status : CompletionDecisionStatus} (h : rejection expected observed session a = some status) :
    status ≠ .current := by
  unfold rejection at h
  repeat' split at h
  all_goals first | (cases h; decide) | cases h

/-- What the early returns leave over. -/
theorem accepts_of_rejection (h : rejection expected observed session a = none)
    (hroom : a.nextFragmentIndex = 0xFFFF → expected.finalFragment = true) : Accepts expected observed session a := by
  unfold rejection at h
  split at h
  · cases h
  rename_i hshape
  split at h
  · cases h
  rename_i hopen
  split at h
  · cases h
  rename_i hknown
  split at h
  · cases h
  rename_i hid
  split at h
  · cases h
  rename_i hsession
  split at h
  · cases h
  rename_i hindex
  simp only [Bool.not_eq_true', not_or, Bool.not_eq_false, Decidable.not_not, sameWorkIdentity_iff] at hshape hknown
  simp only [Bool.not_eq_true', Bool.not_eq_false, Decidable.not_not, sameRequestIdentity_iff] at hid hsession hindex
  obtain ⟨_, hvalid, hwork, hdelivery⟩ := hshape
  exact ⟨by simpa using hopen, hvalid, hwork, hdelivery, hknown, hid.symm, hwork ▸ hsession, hindex, hroom⟩

/-- **`resolveCompletion`, both ways.** -/
theorem resolveCompletion_cases (expected : PlannedWriteRequest) (observed : CompletionRecord) (session : SessionStateView)
    (a : CompletionAggregate) :
    (∃ status, status ≠ .current ∧ resolveCompletion expected observed session a = (rejectedDecision status, a)) ∨
    (Accepts expected observed session a ∧ resolveCompletion expected observed session a =
      (⟨.current, expected.identity, if observed.outcome = .applied then .markAppliedRange else .none,
          if observed.outcome = .applied then .unchanged else .callerPolicyRequired, currentNotice expected observed a⟩,
        currentAggregate expected observed a)) := by
  cases hr : rejection expected observed session a with
  | some status => exact Or.inl ⟨status, rejection_ne_current hr, by simp only [resolveCompletion, hr]⟩
  | none =>
    by_cases hroom : a.nextFragmentIndex = 0xFFFF → expected.finalFragment = true
    · have hacc := accepts_of_rejection hr hroom
      refine Or.inr ⟨hacc, ?_⟩
      obtain ⟨work, delivery, next, failed, complete, noticed⟩ := a
      obtain rfl : complete = false := hacc.unfinished
      simp only [resolveCompletion, hr, currentNotice, currentAggregate]
      by_cases hfinal : expected.finalFragment = true
      · cases failed <;> cases noticed <;> by_cases happ : observed.outcome = .applied <;>
          by_cases htracked : tracksPublicCompletion expected.delivery = true <;> simp [hfinal, happ, htracked]
      · have hnext : next ≠ 0xFFFF := fun e => hfinal (hroom e)
        cases failed <;> cases noticed <;> by_cases happ : observed.outcome = .applied <;>
          by_cases htracked : tracksPublicCompletion expected.delivery = true <;> simp [hfinal, happ, htracked, hnext]
    · simp only [Classical.not_imp] at hroom
      obtain ⟨hlast, hfinal⟩ := hroom
      refine Or.inl ⟨.aggregateMismatch, by decide, ?_⟩
      simp [resolveCompletion, hr, hlast, hfinal]

end

/-! ## The stream -/

/-- One call of `resolveCompletion`. -/
structure CompletionCall where
  expected : PlannedWriteRequest
  observed : CompletionRecord
  session : SessionStateView

def resolveCall (a : CompletionAggregate) (c : CompletionCall) : CompletionDecision × CompletionAggregate :=
  resolveCompletion c.expected c.observed c.session a

abbrev DecisionEvent := Machine.Event CompletionAggregate CompletionCall CompletionDecision

def CompletionCall.applied (c : CompletionCall) : Prop := c.observed.outcome = .applied

/-- The calls with a `Current` decision. -/
def currents (tr : List DecisionEvent) : List DecisionEvent := tr.filter (·.output.current)

/-- A `Current` decision, given the ones before it. -/
structure CurrentAfter (delivery : IngressDelivery) (earlier : List DecisionEvent) (e : DecisionEvent) : Prop where
  identity : e.output.identity = e.input.expected.identity
  index : e.output.identity.fragmentIndex.toNat = earlier.length
  not_past : ∀ e' ∈ earlier, e'.input.expected.finalFragment = false
  once : e.output.notice ≠ .none → ∀ e' ∈ earlier, e'.output.notice = .none
  tracked : e.output.notice ≠ .none → delivery = .tracked
  failed : e.output.notice = .workFailed ↔
    delivery = .tracked ∧ ¬ e.input.applied ∧ ∀ e' ∈ earlier, e'.input.applied
  succeeded : e.output.notice = .workSucceeded ↔
    delivery = .tracked ∧ e.input.applied ∧ e.input.expected.finalFragment = true ∧ ∀ e' ∈ earlier, e'.input.applied

/-- One decision by itself, whatever came before: a decision that is not `Current` carries nothing
and keeps the aggregate. -/
structure DecisionOk (e : DecisionEvent) : Prop where
  applied : e.output.appliedAction = .markAppliedRange ↔ e.output.current = true ∧ e.input.applied
  policy : e.output.desiredDisposition = .callerPolicyRequired ↔ e.output.current = true ∧ ¬ e.input.applied
  rejected : e.output.current = false → (resolveCall e.before e.input).2 = e.before ∧ e.output.notice = .none ∧
    e.output.appliedAction = .none ∧ e.output.desiredDisposition = .unchanged

/-- What the aggregate knows of the `Current` decisions so far. -/
structure StreamInv (delivery : IngressDelivery) (a : CompletionAggregate) (earlier : List DecisionEvent) : Prop where
  same : a.delivery = delivery
  index : a.complete = false →
    a.nextFragmentIndex.toNat = earlier.length ∧ ∀ e ∈ earlier, e.input.expected.finalFragment = false
  failed : a.failed = false ↔ ∀ e ∈ earlier, e.input.applied
  unnoticed : a.noticeEmitted = false → ∀ e ∈ earlier, e.output.notice = .none
  noticed : a.noticeEmitted = true → a.failed = true ∨ a.complete = true
  notices : delivery = .tracked → a.failed = true → a.noticeEmitted = true

theorem decisionOk {e : DecisionEvent} (h : e.output = (resolveCall e.before e.input).1) : DecisionOk e := by
  obtain ⟨a, ⟨expected, observed, session⟩, d⟩ := e
  obtain rfl : d = (resolveCompletion expected observed session a).1 := h
  rcases resolveCompletion_cases expected observed session a with ⟨status, hne, hres⟩ | ⟨_, hres⟩
  · constructor <;> simp [resolveCall, hres, rejectedDecision, CompletionDecision.current, CompletionCall.applied, hne]
  · constructor <;> simp [resolveCall, hres, CompletionDecision.current, CompletionCall.applied]

section
variable {delivery : IngressDelivery} {a : CompletionAggregate} {earlier tr : List DecisionEvent} {c : CompletionCall}

theorem tracks_iff : tracksPublicCompletion delivery = true ↔ delivery = .tracked := by
  simp [tracksPublicCompletion]

/-- The notice of a `Current` decision, by what came before it. -/
theorem currentNotice_spec (h : StreamInv delivery a earlier) (hopen : a.complete = false)
    (hdel : c.expected.delivery = delivery) :
    (currentNotice c.expected c.observed a = .workFailed ↔
      delivery = .tracked ∧ ¬ c.applied ∧ ∀ e ∈ earlier, e.input.applied) ∧
    (currentNotice c.expected c.observed a = .workSucceeded ↔
      delivery = .tracked ∧ c.applied ∧ c.expected.finalFragment = true ∧ ∀ e ∈ earlier, e.input.applied) ∧
    (currentNotice c.expected c.observed a ≠ .none → delivery = .tracked ∧ a.noticeEmitted = false) := by
  have hnoticed := h.noticed
  have hnotices := h.notices
  rw [← h.failed, ← tracks_iff]
  rw [← tracks_iff] at hnotices
  simp only [currentNotice, hdel, CompletionCall.applied]
  rw [hopen] at hnoticed
  by_cases htracked : tracksPublicCompletion delivery = true
  · cases hfailed : a.failed <;> cases hemitted : a.noticeEmitted <;> by_cases happ : c.observed.outcome = .applied <;>
      by_cases hfinal : c.expected.finalFragment = true <;> simp_all
  · simp [htracked]

theorem stream_current (h : StreamInv delivery a earlier) (hacc : Accepts c.expected c.observed c.session a)
    (hres : resolveCall a c = (⟨.current, c.expected.identity, if c.observed.outcome = .applied then .markAppliedRange else .none,
          if c.observed.outcome = .applied then .unchanged else .callerPolicyRequired,
          currentNotice c.expected c.observed a⟩, currentAggregate c.expected c.observed a)) :
    CurrentAfter delivery earlier ⟨a, c, (resolveCall a c).1⟩ ∧
    StreamInv delivery (resolveCall a c).2 (earlier ++ [⟨a, c, (resolveCall a c).1⟩]) := by
  obtain ⟨hindex, hfinal⟩ := h.index hacc.unfinished
  have hdel := hacc.delivery.trans h.same
  obtain ⟨hfailed, hsucceeded, hnotice⟩ := currentNotice_spec h hacc.unfinished hdel
  rw [hres]
  constructor
  · refine ⟨rfl, ?_, hfinal, ?_, fun hne => (hnotice hne).1, hfailed, hsucceeded⟩
    · show c.expected.identity.fragmentIndex.toNat = _
      rw [hacc.index, hindex]
    · exact fun hne => h.unnoticed (hnotice hne).2
  · constructor
    · exact h.same
    · intro hmore
      have hmore : c.expected.finalFragment = false := hmore
      have hroom : a.nextFragmentIndex ≠ 0xFFFF := fun e => by
        rw [hacc.room e] at hmore
        cases hmore
      have hnext := toNat_succ hroom
      constructor
      · simp only [currentAggregate, hmore, List.length_append, List.length_singleton]
        simpa [hindex] using hnext
      · intro e he
        rcases List.mem_append.1 he with he | he
        · exact hfinal e he
        · obtain rfl := List.mem_singleton.1 he
          exact hmore
    · simp only [currentAggregate, Bool.or_eq_false_iff, h.failed, List.forall_mem_append, List.forall_mem_singleton,
        CompletionCall.applied]
      simp
    · simp only [currentAggregate, Bool.or_eq_false_iff, List.forall_mem_append, List.forall_mem_singleton]
      rintro ⟨hold, hnew⟩
      exact ⟨h.unnoticed hold, by simpa using hnew⟩
    · simp only [currentAggregate, Bool.or_eq_true]
      rintro (hold | hnew)
      · rcases h.noticed hold with hf | hc
        · exact Or.inl (Or.inl hf)
        · rw [hacc.unfinished] at hc
          cases hc
      · cases hn : currentNotice c.expected c.observed a with
        | none => simp [hn] at hnew
        | workFailed =>
          have happ := (hfailed.1 hn).2.1
          exact Or.inl (Or.inr (by simpa [CompletionCall.applied] using happ))
        | workSucceeded => exact Or.inr (hsucceeded.1 hn).2.2.1
    · intro htracked hfail
      simp only [currentAggregate, Bool.or_eq_true] at hfail ⊢
      rcases hfail with hfail | hfail
      · exact Or.inl (h.notices htracked hfail)
      · cases hemitted : a.noticeEmitted with
        | true => exact Or.inl rfl
        | false =>
          have htracks := tracks_iff.2 (htracked ▸ hdel)
          refine Or.inr ?_
          simp_all [currentNotice]

theorem resolveCall_inv (h : StreamInv delivery a (currents tr)) (c : CompletionCall) :
    StreamInv delivery (resolveCall a c).2 (currents (tr ++ [⟨a, c, (resolveCall a c).1⟩])) ∧
    (Machine.InOrder (CurrentAfter delivery) (currents tr) →
      Machine.InOrder (CurrentAfter delivery) (currents (tr ++ [⟨a, c, (resolveCall a c).1⟩]))) := by
  rw [currents, List.filter_append]
  rcases resolveCompletion_cases c.expected c.observed c.session a with ⟨status, hne, hres⟩ | ⟨hacc, hres⟩
  · have hcall : resolveCall a c = (rejectedDecision status, a) := hres
    have hskip : [(⟨a, c, (resolveCall a c).1⟩ : DecisionEvent)].filter (·.output.current) = [] := by
      simp [hcall, rejectedDecision_current hne]
    rw [hskip, List.append_nil, hcall]
    exact ⟨h, id⟩
  · have hkeep : [(⟨a, c, (resolveCall a c).1⟩ : DecisionEvent)].filter (·.output.current) =
        [⟨a, c, (resolveCall a c).1⟩] := by
      simp [resolveCall, hres, CompletionDecision.current]
    obtain ⟨hafter, hinv⟩ := stream_current h hacc hres
    rw [hkeep]
    exact ⟨hinv, fun hall => hall.snoc hafter⟩

theorem stream_run (calls : List CompletionCall) (h : StreamInv delivery a (currents tr))
    (hall : Machine.InOrder (CurrentAfter delivery) (currents tr)) :
    Machine.InOrder (CurrentAfter delivery) (currents (tr ++ Machine.trace resolveCall a calls)) := by
  induction calls generalizing a tr with
  | nil => simpa using hall
  | cons c calls ih =>
    obtain ⟨hinv, hkeep⟩ := resolveCall_inv h c
    rw [Machine.trace_cons, List.append_cons]
    exact ih hinv (hkeep hall)

/-- **`resolveCompletion` is safe against any completion stream.** -/
theorem stream_safe (work : WorkIdentity) (delivery : IngressDelivery) (calls : List CompletionCall) :
    Machine.InOrder (CurrentAfter delivery) (currents (Machine.trace resolveCall { work, delivery } calls)) ∧
    (currents (Machine.trace resolveCall { work, delivery } calls)).length ≤ 65536 ∧
    ∀ e ∈ Machine.trace resolveCall { work, delivery } calls, DecisionOk e := by
  have hall : Machine.InOrder (CurrentAfter delivery) (currents (Machine.trace resolveCall { work, delivery } calls)) := by
    have hstart : StreamInv delivery { work, delivery } (currents []) := by
      constructor <;> simp [currents]
    have := stream_run calls hstart Machine.inOrder_nil
    rwa [List.nil_append] at this
  refine ⟨hall, ?_, ?_⟩
  · -- the last one has an index below 65536
    rcases List.eq_nil_or_concat (currents (Machine.trace resolveCall { work, delivery } calls)) with hnil | ⟨pre, e, heq⟩
    · rw [hnil]
      exact Nat.zero_le _
    · rw [List.concat_eq_append] at heq
      have := (hall pre e [] heq).index
      have := e.output.identity.fragmentIndex.toNat_lt
      rw [heq, List.length_append, List.length_singleton]
      omega
  · intro e he
    exact decisionOk (Machine.inv_trace (P := fun _ => True) resolveCall (fun _ _ _ => trivial) trivial calls e he).2

end

/-- Fragment `index` of a tracked work, completed as it was issued. -/
def testCall (index : UInt16) (outcome : DownstreamOutcome) (finalFragment : Bool) : CompletionCall :=
  ⟨{ identity := ⟨⟨1, 9⟩, 1, index⟩, delivery := .tracked, finalFragment }, ⟨⟨⟨1, 9⟩, 1, index⟩, outcome⟩, ⟨true, 9, 9, .ready⟩⟩

example : ((Machine.trace resolveCall { work := ⟨1, 9⟩, delivery := .tracked }
    [testCall 0 .applied false, testCall 0 .applied false, testCall 1 .sendUncertain false, testCall 2 .applied true,
      testCall 3 .applied true]).map fun e => (e.output.status, e.output.notice)) =
    [(.current, .none), (.outOfOrder, .none), (.current, .workFailed), (.current, .none), (.alreadyTerminal, .none)] := by
  decide

end ModbusRTUBridge
