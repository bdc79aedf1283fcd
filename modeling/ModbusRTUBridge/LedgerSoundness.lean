import ModbusRTUBridge.LedgerHistory
/-!
# Debt and outcome

What the operator is told about a work is what happened to it: `RecordSound` compares a record and
its summary with the history of the work, and holds of every record after any calls
(`ledger_sound`).
-/

namespace ModbusRTUBridge

/-! ## One record -/

/-- A record and its summary, against the history of the work. -/
structure RecordSound (s : CompletionLedgerSlot) (h : WorkHistory) : Prop where
  one : s.outstandingRequests = 0 ∨ s.outstandingRequests = 1
  debt : s.outstandingRequests.toNat + h.resolved.length = h.recorded.length
  in_order : ∀ (k : Nat) request, h.recorded[k]? = some request → request.identity.fragmentIndex.toNat = k
  resolved : ∀ (k : Nat) c, h.resolved[k]? = some c → h.recorded[k]? = some c.expected ∧
    c.observed.identity = c.expected.identity ∧ workCurrent s.aggregate.work c.session = true
  once : (h.resolved.map (·.expected)).Nodup
  retained : s.outstandingRequests ≠ 0 → h.recorded[h.resolved.length]? = some s.issuedRequest ∧
    s.issuedRequest.identity.fragmentIndex = s.aggregate.nextFragmentIndex
  counters : s.nextIssuedFragment.toNat = s.aggregate.nextFragmentIndex.toNat +
    if s.outstandingRequests ≠ 0 ∧ s.issuedRequest.finalFragment = false then 1 else 0
  planning : s.planningClosed = true ↔ (∃ request ∈ h.recorded, request.finalFragment = true) ∨ h.closed = true
  settled : (CompletionLedger.summarize s).settled = true ↔
    (∃ c ∈ h.resolved, ¬ c.applied) ∨ s.planningClosed = true ∧ s.outstandingRequests = 0
  not_pending : (CompletionLedger.summarize s).settled = true → (CompletionLedger.summarize s).outcome ≠ .pending
  applied : (CompletionLedger.summarize s).outcome = .applied ↔
    ∃ k, h.recorded.length = k + 1 ∧ h.resolved.length = k + 1 ∧ (∀ c ∈ h.resolved, c.applied) ∧
      ∀ (j : Nat) request, h.recorded[j]? = some request → (request.finalFragment = true ↔ j = k)
  worst : (CompletionLedger.summarize s).settled = true → (CompletionLedger.summarize s).outcome ≠ .applied →
    (∃ c ∈ h.resolved, workOutcomeFor c.observed.outcome = (CompletionLedger.summarize s).outcome) ∧
    ∀ c ∈ h.resolved, (workOutcomeFor c.observed.outcome).rank ≤ (CompletionLedger.summarize s).outcome.rank

namespace Recalls

variable {s : CompletionLedgerSlot} {h : WorkHistory}

theorem settled_iff (hr : Recalls s h) : (CompletionLedger.summarize s).settled = true ↔
    (∃ c ∈ h.resolved, ¬ c.applied) ∨ s.planningClosed = true ∧ s.outstandingRequests = 0 := by
  rw [WorkHistory.outcome_failed, ← hr.outcome]
  simp [CompletionLedger.summarize]

/-- Nothing outstanding, and the final fragment recorded: it is resolved. -/
theorem finished_eq (hr : Recalls s h) (hnone : s.outstandingRequests = 0) : h.finished = h.ended := by
  rw [Bool.eq_iff_iff]
  refine ⟨hr.ended_of_finished, ?_⟩
  simp only [WorkHistory.ended, WorkHistory.finished, List.any_eq_true]
  rintro ⟨request, hmem, hfinal⟩
  obtain ⟨k, hk⟩ := List.getElem?_of_mem hmem
  have hlen := (List.getElem?_eq_some_iff.1 hk).1
  rw [← hr.settled_up hnone] at hlen
  have hc := List.getElem?_eq_getElem hlen
  have hrec := (hr.resolved k _ hc).1
  rw [hk] at hrec
  refine ⟨h.resolved[k], List.getElem_mem hlen, ?_⟩
  rw [← Option.some.inj hrec]
  exact hfinal

/-- What is settled has been resolved, at least in part. -/
theorem resolved_ne_nil (hr : Recalls s h) (hsettled : (CompletionLedger.summarize s).settled = true) : h.resolved ≠ [] := by
  rcases hr.settled_iff.1 hsettled with ⟨c, hc, _⟩ | ⟨hplanning, hnone⟩
  · exact List.ne_nil_of_mem hc
  · rw [hr.planning, Bool.or_eq_true] at hplanning
    rcases hplanning with hended | hclosed
    · rw [← hr.finished_eq hnone, WorkHistory.finished, List.any_eq_true] at hended
      obtain ⟨c, hc, _⟩ := hended
      exact List.ne_nil_of_mem hc
    · obtain ⟨c, hc, _⟩ := hr.closed hclosed
      exact List.ne_nil_of_mem hc

theorem summarize_outcome (hr : Recalls s h) (hsettled : (CompletionLedger.summarize s).settled = true) :
    (CompletionLedger.summarize s).outcome = h.outcome := by
  have hout : (CompletionLedger.summarize s).outcome =
    if (CompletionLedger.summarize s).settled then s.observedOutcome else .pending := rfl
  rw [hout, if_pos hsettled, hr.outcome]

/-- Each resolved request is one of its own. -/
theorem once (hr : Recalls s h) : (h.resolved.map (·.expected)).Nodup := by
  rw [List.nodup_iff_injective_getElem]
  intro i j hij
  simp only [List.getElem_map] at hij
  have hi : i.1 < h.resolved.length := by simpa using i.2
  have hj : j.1 < h.resolved.length := by simpa using j.2
  have h1 := (hr.recorded _ _ (hr.resolved _ _ (List.getElem?_eq_getElem hi)).1).index
  have h2 := (hr.recorded _ _ (hr.resolved _ _ (List.getElem?_eq_getElem hj)).1).index
  rw [hij] at h1
  exact Fin.ext (h1.symm.trans h2)

theorem counters (hr : Recalls s h) : s.nextIssuedFragment.toNat = s.aggregate.nextFragmentIndex.toNat +
    if s.outstandingRequests ≠ 0 ∧ s.issuedRequest.finalFragment = false then 1 else 0 := by
  have hissue := hr.issue
  have hprogress := hr.progress
  have hdebt := hr.debt
  by_cases hnone : s.outstandingRequests = 0
  · rw [hr.finished_eq hnone, hr.settled_up hnone] at hprogress
    rw [if_neg (fun hbad => hbad.1 hnone)]
    omega
  · rw [hr.outstanding_one hnone] at hdebt
    rw [hr.unfinished hnone] at hprogress
    rw [← hr.retained_final hnone] at hissue
    cases hfinal : s.issuedRequest.finalFragment with
    | true =>
      rw [hfinal] at hissue
      simp only [Bool.toNat_true, Bool.toNat_false] at hissue hprogress
      simp only [Bool.true_eq_false, and_false, if_false]
      omega
    | false =>
      rw [hfinal] at hissue
      rw [if_pos ⟨hnone, rfl⟩]
      simp only [Bool.toNat_false] at hissue hprogress
      omega

theorem applied_iff (hr : Recalls s h) : (CompletionLedger.summarize s).outcome = .applied ↔
    ∃ k, h.recorded.length = k + 1 ∧ h.resolved.length = k + 1 ∧ (∀ c ∈ h.resolved, c.applied) ∧
      ∀ (j : Nat) request, h.recorded[j]? = some request → (request.finalFragment = true ↔ j = k) := by
  constructor
  · intro happlied
    have hsettled : (CompletionLedger.summarize s).settled = true := by
      refine Classical.byContradiction fun hopen => ?_
      have hout : (CompletionLedger.summarize s).outcome =
        if (CompletionLedger.summarize s).settled then s.observedOutcome else .pending := rfl
      rw [hout, if_neg hopen] at happlied
      cases happlied
    rw [hr.summarize_outcome hsettled] at happlied
    obtain ⟨_, hall⟩ := WorkHistory.outcome_applied.1 happlied
    have hnofail : ¬ ∃ c ∈ h.resolved, ¬ c.applied := by
      rintro ⟨c, hc, hfailed⟩
      exact hfailed (hall c hc)
    obtain ⟨hplanning, hnone⟩ := (hr.settled_iff.1 hsettled).resolve_left hnofail
    -- planning was closed by the final fragment, not for a failure
    have hended : h.ended = true := by
      rw [hr.planning, Bool.or_eq_true] at hplanning
      exact hplanning.resolve_right fun hclosed => hnofail (hr.closed hclosed)
    simp only [WorkHistory.ended, List.any_eq_true] at hended
    obtain ⟨final, hmem, hfinal⟩ := hended
    obtain ⟨k, hk⟩ := List.getElem?_of_mem hmem
    have hlast := (hr.recorded k final hk).last hfinal
    refine ⟨k, hlast.symm, (hr.settled_up hnone).trans hlast.symm, hall, ?_⟩
    intro j request hj
    constructor
    · intro hbad
      have := (hr.recorded j request hj).last hbad
      omega
    · rintro rfl
      rw [hk] at hj
      rw [← Option.some.inj hj]
      exact hfinal
  · rintro ⟨k, hrecorded, hresolved, hall, hfinal⟩
    have hnone : s.outstandingRequests = 0 := by
      have hdebt := hr.debt
      exact UInt16.toNat.inj (by simp only [UInt16.toNat_zero]; omega)
    have hlt : k < h.recorded.length := by omega
    have hended : h.ended = true := by
      rw [WorkHistory.ended, List.any_eq_true]
      exact ⟨h.recorded[k], List.getElem_mem hlt, (hfinal k _ (List.getElem?_eq_getElem hlt)).2 rfl⟩
    have hplanning : s.planningClosed = true := by
      rw [hr.planning, hended]
      rfl
    rw [hr.summarize_outcome (hr.settled_iff.2 (Or.inr ⟨hplanning, hnone⟩))]
    refine WorkHistory.outcome_applied.2 ⟨?_, hall⟩
    intro hnil
    rw [hnil] at hresolved
    cases hresolved

theorem sound (hr : Recalls s h) : RecordSound s h where
  one := by
    by_cases hnone : s.outstandingRequests = 0
    · exact Or.inl hnone
    · exact Or.inr (UInt16.toNat.inj (hr.outstanding_one hnone))
  debt := hr.debt
  in_order k request hk := (hr.recorded k request hk).index
  resolved := hr.resolved
  once := hr.once
  retained hout := ⟨hr.retained hout, hr.retained_next hout⟩
  counters := hr.counters
  planning := by
    rw [hr.planning, Bool.or_eq_true, WorkHistory.ended, List.any_eq_true]
  settled := hr.settled_iff
  not_pending hsettled := by
    rw [hr.summarize_outcome hsettled]
    exact fun hpending => hr.resolved_ne_nil hsettled (WorkHistory.outcome_pending.1 hpending)
  applied := hr.applied_iff
  worst hsettled _ := by
    rw [hr.summarize_outcome hsettled]
    exact WorkHistory.outcome_worst (hr.resolved_ne_nil hsettled)

end Recalls

/-! ## The whole ledger -/

namespace WorkMap

variable {m : WorkMap} {w w' : WorkIdentity} {s : CompletionLedgerSlot} {test : WorkIdentity → Bool}

theorem erase_some (hs : (m.erase w).records w' = some s) : m.records w' = some s := by
  simp only [erase] at hs
  split at hs
  · cases hs
  · exact hs

theorem forget_some (hs : (m.forget test).records w' = some s) : m.records w' = some s := by
  simp only [forget] at hs
  split at hs
  · cases hs
  · exact hs

end WorkMap

/-- Every record on file recalls the history of its work. -/
def Remembers (m : WorkMap) (g : WorkIdentity → WorkHistory) : Prop :=
  ∀ w s, m.records w = some s → Recalls s (g w)

namespace Remembers

variable {l : CompletionLedger} {m m' : WorkMap} {g : WorkIdentity → WorkHistory} {call : LedgerCall}
  {result : LedgerResult} {w : WorkIdentity} {s : CompletionLedgerSlot}

/-- A call that writes the record of the work it is addressed to. -/
theorem set (h : Remembers m g) (hw : call.addressee = some w) (hs : Recalls s ((g w).after call result)) :
    Remembers (m.set w s) (noteCall g call result) := by
  intro w' s' hs'
  simp only [WorkMap.set] at hs'
  split at hs'
  · rename_i heq
    subst heq
    cases hs'
    rw [noteCall, if_pos hw]
    exact hs
  · rename_i hne
    rw [noteCall, if_neg]
    · exact h w' s' hs'
    · rw [hw]
      exact fun e => hne (Option.some.inj e).symm

/-- A call that writes no record; it may take some away. -/
theorem keep (h : Remembers m g) (hkeep : ∀ w, call.addressee = some w → (g w).after call result = g w)
    (hsub : ∀ w s, m'.records w = some s → m.records w = some s) : Remembers m' (noteCall g call result) := by
  intro w s hs
  rw [noteCall]
  split
  · rename_i hw
    rw [hkeep w hw]
    exact h w s (hsub w s hs)
  · exact h w s (hsub w s hs)

/-- **One call**, with whatever arguments. -/
theorem step (hm : Refines l m) (h : Remembers m g) (call : LedgerCall) :
    Remembers (m.step call).2 (noteCall g call (m.step call).1) := by
  cases call with
  | reserve w d =>
    simp only [WorkMap.step]
    split
    · exact h.keep (fun _ _ => rfl) fun _ _ hs => hs
    rename_i hok
    simp only [Bool.not_eq_true', not_or, Bool.not_eq_false] at hok
    split
    · exact h.keep (fun _ _ => rfl) fun _ _ hs => hs
    split
    · exact h.set rfl (recalls_reserved hok.1 hok.2)
    · exact h.keep (fun _ _ => rfl) fun _ _ hs => hs
  | recordIssued request =>
    simp only [WorkMap.step]
    split
    · exact h.keep (fun _ _ => rfl) fun _ _ hs => hs
    rename_i hok
    simp only [Bool.not_eq_true', not_or, Bool.not_eq_false] at hok
    split
    · exact h.keep (fun _ _ => rfl) fun _ _ hs => hs
    · rename_i s hs
      exact h.set rfl ((h _ s hs).issue_step hok.1 (hm.record_work hs).1.symm)
  | closePlanningAfterFailure w =>
    simp only [WorkMap.step]
    split
    · exact h.keep (fun _ _ => rfl) fun _ _ hs => hs
    · rename_i s hs
      exact h.set rfl (h w s hs).close_step
  | resolve expected observed session =>
    simp only [WorkMap.step]
    split
    · exact h.keep (fun _ _ => rfl) fun _ _ hs => hs
    · rename_i s hs
      exact h.set rfl (h _ s hs).complete_step
  | summary w =>
    simp only [WorkMap.step]
    split <;> exact h.keep (fun _ _ => rfl) fun _ _ hs => hs
  | release w =>
    simp only [WorkMap.step]
    split
    · exact h.keep (fun _ _ => rfl) fun _ _ hs => hs
    split
    · exact h.keep (fun _ _ => rfl) fun _ _ hs => (WorkMap.erase_some hs)
    · exact h.keep (fun _ _ => rfl) fun _ _ hs => hs
  | abandon w =>
    simp only [WorkMap.step]
    split
    · exact h.keep (fun _ _ => rfl) fun _ _ hs => hs
    · exact h.keep (fun _ _ => rfl) fun _ _ hs => WorkMap.erase_some hs
  | abandonGeneration generation => exact h.keep (fun _ _ => rfl) fun _ _ hs => WorkMap.forget_some hs
  | abandonNotCurrent session => exact h.keep (fun _ _ => rfl) fun _ _ hs => WorkMap.forget_some hs
  | clear =>
    refine h.keep (fun _ _ => rfl) ?_
    intro w s hs
    cases hs

end Remembers

/-- What holds of a ledger and of the histories of all works. -/
structure LedgerSound (l : CompletionLedger) (g : WorkIdentity → WorkHistory) : Prop where
  records : ∀ i < l.capacity.toNat, (l.slot i).occupied = true → RecordSound (l.slot i) (g (l.slot i).aggregate.work)
  summaries : ∀ i < l.capacity.toNat, (l.slot i).occupied = true →
    l.summary (l.slot i).aggregate.work = (true, CompletionLedger.summarize (l.slot i))
  rejects : ∀ expected observed session, (l.resolve expected observed session).1.status = .completionRejected →
    ((l.resolve expected observed session).1.decision.status = .identityMismatch ∨
      (l.resolve expected observed session).1.decision.status = .staleSession) ∧
    (l.resolve expected observed session).2 = l

theorem Remembers.sound {l : CompletionLedger} {m : WorkMap} {g : WorkIdentity → WorkHistory} (h : Remembers m g)
    (hm : Refines l m) : LedgerSound l g := by
  have hrecord : ∀ i < l.capacity.toNat, (l.slot i).occupied = true →
      m.records (l.slot i).aggregate.work = some (l.slot i) := by
    intro i hi hocc
    rw [hm.records]
    exact (SlotTable.get_eq_some hm.wf.distinct).2 ⟨i, hi, CompletionLedger.key_eq_some.2 ⟨hocc, rfl⟩, rfl⟩
  refine ⟨?_, ?_, ?_⟩
  · intro i hi hocc
    exact (h _ _ (hrecord i hi hocc)).sound
  · intro i hi hocc
    rw [hm.summary_eq, hrecord i hi hocc]
    rfl
  · intro expected observed session hbad
    rcases hm.found expected.identity.work with ⟨hf, _⟩ | ⟨i, hf, hrec⟩
    · rw [CompletionLedger.resolve, hf] at hbad
      cases hbad
    · rw [CompletionLedger.resolve_of_find hf] at hbad ⊢
      obtain ⟨hsame, hwhy⟩ := (h _ _ hrec).rejected hbad
      refine ⟨hwhy, ?_⟩
      simp only [hsame, CompletionLedger.setSlot_slot]

/-! ### No storage at all -/

namespace CompletionLedger

variable {l : CompletionLedger} {w : WorkIdentity}

theorem find_of_isNone (h : l.slots.isNone = true) : l.find w = none := by
  rw [find, if_pos (Or.inl h)]

/-- A ledger that was given no slots refuses everything. -/
theorem step_isNone (h : l.slots.isNone = true) (call : LedgerCall) : (l.step call).2.slots.isNone = true := by
  cases call with
  | reserve w d =>
    have hfree : l.firstFree = none := by rw [firstFree, if_pos h]
    simp only [step, reserve, hfree]
    repeat' split
    all_goals exact h
  | recordIssued request =>
    simp only [step, recordIssued, find_of_isNone h]
    split <;> exact h
  | closePlanningAfterFailure w => simpa only [step, closePlanningAfterFailure, find_of_isNone h] using h
  | resolve expected observed session => simpa only [step, resolve, find_of_isNone h] using h
  | summary w => exact h
  | release w => simpa only [step, release, find_of_isNone h] using h
  | abandon w => simpa only [step, abandon, find_of_isNone h] using h
  | abandonGeneration generation => simpa only [step, abandonGeneration, if_pos (Or.inl h)] using h
  | abandonNotCurrent session => simpa only [step, abandonNotCurrent, if_pos h] using h
  | clear =>
    simp only [step, clear, Option.isNone_map]
    exact h

theorem sound_of_isNone (h : l.slots.isNone = true) (g : WorkIdentity → WorkHistory) : LedgerSound l g := by
  have hempty : ∀ i, (l.slot i).occupied = false := by
    intro i
    rw [slot, Option.isNone_iff_eq_none.1 h]
    rfl
  refine ⟨?_, ?_, ?_⟩
  · intro i _ hocc
    rw [hempty i] at hocc
    cases hocc
  · intro i _ hocc
    rw [hempty i] at hocc
    cases hocc
  · intro expected observed session hbad
    rw [resolve, find_of_isNone h] at hbad
    cases hbad

end CompletionLedger

/-! ### Every run -/

/-- **Debt and outcome.** After any calls with any arguments, every record agrees with the history
of its work, and no completion is rejected for a disagreement inside the ledger. -/
theorem ledger_sound (slots : Storage CompletionLedgerSlot) (capacity : UInt16) (calls : List LedgerCall) :
    LedgerSound (Machine.final CompletionLedger.step (.create slots capacity) calls)
      (Machine.observe noteCall (fun _ => {}) (Machine.trace CompletionLedger.step (.create slots capacity) calls)) := by
  by_cases hstorage : capacity = 0 ∨ slots.isNone = false
  · have hend := Machine.simulates_final CompletionLedger.step (f := noteCall)
      (R := fun l g => ∃ m, Refines l m ∧ Remembers m g) (by
        rintro l g call ⟨m, hm, h⟩
        obtain ⟨hout, hnext⟩ := hm.step call
        refine ⟨(m.step call).2, hnext, ?_⟩
        rw [hout]
        exact h.step hm call) (g := fun _ => {}) ⟨_, create_refines hstorage, by
          intro w s hs
          cases hs⟩ calls
    obtain ⟨m, hm, h⟩ := hend
    exact h.sound hm
  · have hnone : slots.isNone = true := by
      simpa using (not_or.1 hstorage).2
    have hcreate : (CompletionLedger.create slots capacity).slots.isNone = true := by
      simpa [CompletionLedger.create, CompletionLedger.clear] using hnone
    have hend := Machine.inv_final CompletionLedger.step (P := fun l => l.slots.isNone = true)
      (fun l call h => CompletionLedger.step_isNone h call) hcreate calls
    exact CompletionLedger.sound_of_isNone hend _

/-- A first fragment that may or may not have been sent, and a close while the second is out. -/
def testDebtCalls : List LedgerCall :=
  let request (fragment : UInt16) : PlannedWriteRequest := { identity := ⟨⟨1, 9⟩, 7, fragment⟩, delivery := .tracked }
  let session : SessionStateView := ⟨true, 9, 9, .ready⟩
  [.reserve ⟨1, 9⟩ .tracked, .recordIssued (request 0), .resolve (request 0) ⟨⟨⟨1, 9⟩, 7, 1⟩, .applied⟩ session,
    .resolve (request 0) ⟨⟨⟨1, 9⟩, 7, 0⟩, .sendUncertain⟩ session, .recordIssued (request 1),
    .closePlanningAfterFailure ⟨1, 9⟩, .resolve (request 1) ⟨⟨⟨1, 9⟩, 7, 1⟩, .applied⟩ session]

example : ((Machine.final CompletionLedger.step (.create (some fun _ => {}) 1) testDebtCalls).summary ⟨1, 9⟩) =
    (true, ⟨⟨1, 9⟩, .uncertainSend, 0, true, true⟩) := by decide

end ModbusRTUBridge
