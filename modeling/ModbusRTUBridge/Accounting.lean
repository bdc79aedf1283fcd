import Mathlib.Data.List.Nodup
import ModbusRTUBridge.Steps
/-!
# The ledger accounts for the queue

Coherence, spelled out in the facade's own terms: ledger slots by index, queued slots, and the
in-flight record. It holds in every state a deployed facade can reach, and with it the guards
that would report a broken ledger or a broken fairness commit are dead code.
-/

namespace ModbusRTUBridge

namespace StoreForwardBridge

/-- Ledger slot `i` is the one that accounts for the queued work `s`. -/
def Accounts (b : StoreForwardBridge) (i : Nat) (s : StoreForwardWorkSlot) : Prop :=
  i < b.completionLedger.capacity.toNat ∧ (b.completionLedger.slot i).occupied = true ∧
    (b.completionLedger.slot i).aggregate.work = s.workIdentity

/-- Queue, ledger and in-flight action, slot by slot. -/
structure Accounted (b : StoreForwardBridge) : Prop where
  /-- No two queued works share an identity. -/
  distinct : (b.queue.map (·.workIdentity)).Nodup
  /-- Every queued work has one ledger slot, with its delivery. -/
  slot_of_work : ∀ s ∈ b.queue, ∃ i, b.Accounts i s ∧ (b.completionLedger.slot i).aggregate.delivery = s.workDelivery ∧
    ∀ j, b.Accounts j s → j = i
  /-- Every occupied ledger slot has one queued work. -/
  work_of_slot : ∀ i < b.completionLedger.capacity.toNat, (b.completionLedger.slot i).occupied = true →
    ∃ s ∈ b.queue, b.Accounts i s ∧ ∀ s' ∈ b.queue, b.Accounts i s' → s' = s
  /-- Of a work behind the front nothing was ever issued. -/
  untouched : ∀ s ∈ b.queue.tail, s.fragmentIndex = 0 ∧ ∀ i, b.Accounts i s →
    (b.completionLedger.slot i).nextIssuedFragment = 0 ∧ (b.completionLedger.slot i).aggregate.nextFragmentIndex = 0 ∧
    (b.completionLedger.slot i).issuedRequest = {} ∧ (b.completionLedger.slot i).observedOutcome = .pending ∧
    (b.completionLedger.slot i).planningClosed = false
  /-- A write in flight is the one outstanding request, and the front's. -/
  outstanding_one : b.inFlight = true → b.inFlightAction.kind = .forwardWrite →
    ∃ s rest, b.queue = s :: rest ∧ b.inFlightWork = s.workIdentity ∧ ∃ i, b.Accounts i s ∧
      (b.completionLedger.slot i).outstandingRequests = 1 ∧
      (b.completionLedger.slot i).issuedRequest = b.inFlightAction.write ∧
      ∀ j < b.completionLedger.capacity.toNat, j ≠ i → (b.completionLedger.slot j).outstandingRequests = 0
  /-- Otherwise nothing is outstanding. -/
  outstanding_none : ¬ (b.inFlight = true ∧ b.inFlightAction.kind = .forwardWrite) →
    ∀ i < b.completionLedger.capacity.toNat, (b.completionLedger.slot i).outstandingRequests = 0
  /-- With nothing in flight the front can go on where its record stands. -/
  front_ready : b.inFlight = false → ∀ s ∈ b.queue.head?, s.active = true ∧ 0 < s.remaining.toNat ∧
    ∀ i, b.Accounts i s → (b.completionLedger.slot i).nextIssuedFragment = s.fragmentIndex ∧
      (b.completionLedger.slot i).aggregate.nextFragmentIndex = s.fragmentIndex ∧
      (b.completionLedger.slot i).planningClosed = false

variable {b : StoreForwardBridge} {s : StoreForwardWorkSlot} {i : Nat}

theorem Accounts.lookup (h : b.Coherent) (ha : b.Accounts i s) :
    b.records s.workIdentity = some (b.completionLedger.slot i) :=
  CompletionLedger.lookup_of_key h.ledger ha.1 (CompletionLedger.key_eq_some.2 ha.2)

theorem accounts_of_lookup (h : b.Coherent) {r : CompletionLedgerSlot} (hr : b.records s.workIdentity = some r) :
    ∃ i, b.Accounts i s ∧ b.completionLedger.slot i = r := by
  obtain ⟨i, hf, rfl⟩ := (CompletionLedger.lookup_eq_some_iff h.ledger).1 hr
  obtain ⟨hi, hk, _⟩ := CompletionLedger.find_some h.ledger hf
  exact ⟨i, ⟨hi, CompletionLedger.key_eq_some.1 hk⟩, rfl⟩

theorem Accounts.index_unique (h : b.Coherent) {j : Nat} (hi : b.Accounts i s) (hj : b.Accounts j s) : j = i :=
  h.ledger.distinct j i s.workIdentity hj.1 hi.1 (CompletionLedger.key_eq_some.2 hj.2) (CompletionLedger.key_eq_some.2 hi.2)

/-- The record of a queued work: the front's while its fragment is outstanding, else idle. -/
theorem Coherent.record_cases (h : b.Coherent) (hs : s ∈ b.queue) :
    (∃ a rest, b.outstanding = some a ∧ b.queue = s :: rest ∧ s.Issued b.forwardPlanner a ∧
      b.records s.workIdentity = some (busyRecord a.write)) ∨
    ((b.outstanding = none ∨ s ∈ b.queue.tail) ∧ s.remaining ≠ 0 ∧ b.records s.workIdentity = some s.idleRecord) := by
  cases hq : b.queue with
  | nil => rw [hq] at hs; cases hs
  | cons f rest =>
    have hfiled := h.filed_cons hq
    rw [hq] at hs
    rcases List.mem_cons.1 hs with rfl | hs
    · cases ho : b.outstanding with
      | none => rw [ho] at hfiled; exact Or.inr ⟨Or.inl rfl, hfiled.front_cons.1, hfiled.front_cons.2⟩
      | some a => rw [ho] at hfiled; exact Or.inl ⟨a, rest, rfl, rfl, hfiled.front_cons.1, hfiled.front_cons.2⟩
    · obtain ⟨_, h1, h2⟩ := hfiled.waiting s hs
      exact Or.inr ⟨Or.inr hs, h1, h2⟩

/-- Every work of an idle facade has something left to send. -/
theorem Coherent.unfinished (h : b.Coherent) (hf : b.inFlight = false) (hs : s ∈ b.queue) : s.remaining ≠ 0 := by
  rcases h.record_cases hs with ⟨_, _, ho, _⟩ | ⟨_, hr, _⟩
  · rw [outstanding_idle hf] at ho
    cases ho
  · exact hr

/-- An occupied ledger slot belongs to a queued work. -/
theorem work_of_occupied (h : b.Coherent) (hi : i < b.completionLedger.capacity.toNat)
    (hocc : (b.completionLedger.slot i).occupied = true) : ∃ s ∈ b.queue, b.Accounts i s := by
  have hlook := CompletionLedger.lookup_of_key h.ledger hi (CompletionLedger.key_eq_some.2 ⟨hocc, rfl⟩)
  obtain ⟨s, hs, hid⟩ := List.mem_map.1 (h.filed.keys _ _ hlook)
  exact ⟨s, hs, hi, hocc, hid.symm⟩

/-- Every ledger slot but the front's busy one has nothing outstanding. -/
theorem outstanding_zero (h : b.Coherent) (hi : i < b.completionLedger.capacity.toNat)
    (hidle : ∀ a s rest, b.outstanding = some a → b.queue = s :: rest → ¬ b.Accounts i s) :
    (b.completionLedger.slot i).outstandingRequests = 0 := by
  cases hocc : (b.completionLedger.slot i).occupied with
  | false => rw [h.ledger.free_clear i hi hocc]
  | true =>
    obtain ⟨s, hs, ha⟩ := work_of_occupied h hi hocc
    rcases h.record_cases hs with ⟨a, rest, ho, hq, _, _⟩ | ⟨_, _, hrec⟩
    · exact absurd ha (hidle a s rest ho hq)
    · rw [← Option.some.inj ((ha.lookup h).symm.trans hrec).symm]
      rfl

/-- **Coherence, spelled out.** -/
theorem Coherent.accounted (h : b.Coherent) : b.Accounted where
  distinct := h.filed.nodup
  slot_of_work s hs := by
    have hrec : ∃ r, b.records s.workIdentity = some r ∧ r.aggregate.delivery = s.workDelivery := by
      rcases h.record_cases hs with ⟨a, _, _, _, hi, hr⟩ | ⟨_, _, hr⟩
      · exact ⟨_, hr, hi.delivery_eq⟩
      · exact ⟨_, hr, rfl⟩
    obtain ⟨r, hr, hd⟩ := hrec
    obtain ⟨i, ha, rfl⟩ := accounts_of_lookup h hr
    exact ⟨i, ha, hd, fun j hj => ha.index_unique h hj⟩
  work_of_slot i hi hocc := by
    obtain ⟨s, hs, ha⟩ := work_of_occupied h hi hocc
    refine ⟨s, hs, ha, ?_⟩
    intro s' hs' ha'
    exact List.inj_on_of_nodup_map h.filed.nodup hs' hs (ha'.2.2.symm.trans ha.2.2)
  untouched s hs := by
    obtain ⟨hidx, _, hrec⟩ := h.filed.waiting s hs
    refine ⟨hidx, ?_⟩
    intro i ha
    rw [← Option.some.inj ((ha.lookup h).symm.trans hrec).symm]
    simp [StoreForwardWorkSlot.idleRecord, recordAt, hidx]
  outstanding_one hf hk := by
    have ho := outstanding_eq_some.2 ⟨hf, rfl, hk⟩
    obtain ⟨s, rest, hq, _, hrec, hown⟩ := h.front_of_outstanding ho
    obtain ⟨i, ha, hslot⟩ := accounts_of_lookup h hrec
    refine ⟨s, rest, hq, hown, i, ha, by rw [hslot]; rfl, by rw [hslot]; rfl, ?_⟩
    intro j hj hji
    apply outstanding_zero h hj
    intro a s' rest' _ hq' haj
    rw [hq] at hq'
    cases hq'
    exact hji (ha.index_unique h haj)
  outstanding_none hno i hi := by
    apply outstanding_zero h hi
    intro a s rest ho _
    obtain ⟨h1, rfl, h2⟩ := outstanding_eq_some.1 ho
    exact absurd ⟨h1, h2⟩ hno
  front_ready hf s hs := by
    have hmem := List.mem_of_mem_head? hs
    have hrec := h.filed.front s hs
    rw [outstanding_idle hf] at hrec
    refine ⟨(h.filed.slots s hmem).active_iff.2 hrec.1, toNat_pos.2 hrec.1, ?_⟩
    intro i ha
    rw [← Option.some.inj ((ha.lookup h).symm.trans hrec.2).symm]
    exact ⟨rfl, rfl, rfl⟩

/-- The late guards of `admitAction` never fire. -/
theorem Coherent.admitAction_status (h : b.Coherent) (mem : Memory) (a : StoreForwardAction) (session : SessionStateView)
    (polls : Storage PollCandidate) (n : UInt16) :
    (b.admitAction mem a session polls n).1 ≠ .ledgerRejected ∧
    (b.admitAction mem a session polls n).1 ≠ .fairnessRejected := by
  rcases admitAction_cases h mem a session polls n with ⟨hno, _⟩ | ⟨_, _, ⟨_, _, _, heq⟩ | ⟨_, _, _, heq⟩ | ⟨_, _, heq⟩⟩
  · rcases (admitAction_refused hno).1 with ⟨e, _⟩ | ⟨e, _⟩ | e <;> rw [e] <;> decide
  all_goals rw [heq]; exact ⟨by simp, by simp⟩

/-- The ledger never refuses a completion the facade passes on. -/
theorem Coherent.complete_status (h : b.Coherent) (a : StoreForwardAction) (outcome : DownstreamOutcome)
    (session : SessionStateView) : (b.complete a outcome session).1.status ≠ .ledgerRejected := by
  rcases complete_cases h a outcome session with hno | ⟨_, _, _, ⟨_, heq⟩ | ⟨_, _, _, _, _, _, heq, _⟩ |
    ⟨_, _, _, _, _, _, heq, _⟩⟩
  · rcases (complete_refused session hno).1 with e | e | e <;> rw [e] <;> decide
  all_goals rw [heq]; simp [settledResult, staleResult]

/-- Nor does a preview fail to plan. -/
theorem Coherent.nextAction_status (h : b.Coherent) (mem : Memory) (session : SessionStateView) (now : UInt32)
    (polls : Storage PollCandidate) (n : UInt16) (ctx : Ptr) :
    (b.nextAction mem session now polls n ctx).1 ≠ .planningFailed := by
  rcases previewAction_cases h mem session now polls n ctx with ⟨_, hne⟩ | ⟨hready, _⟩ | ⟨hready, _⟩
  · exact hne
  all_goals show (b.previewAction mem session now polls n ctx).status ≠ _; rw [hready]; decide

/-- **Queue, ledger and in-flight action agree in every reachable state**, and no later call can
run into a disagreement. -/
theorem ledger_accounts (hb : b.Deployed) (calls : List Call) :
    (b.run calls).Accounted ∧
    (∀ mem a session polls n, ((b.run calls).admitAction mem a session polls n).1 ≠ .ledgerRejected ∧
      ((b.run calls).admitAction mem a session polls n).1 ≠ .fairnessRejected) ∧
    (∀ a outcome session, ((b.run calls).complete a outcome session).1.status ≠ .ledgerRejected) ∧
    (∀ mem session now polls n ctx, ((b.run calls).nextAction mem session now polls n ctx).1 ≠ .planningFailed) :=
  have h := run_coherent hb.coherent calls
  ⟨h.accounted, h.admitAction_status, h.complete_status, h.nextAction_status⟩

/-- With both works of the test queued and one fragment behind. -/
theorem ledger_accounts_test : (testBridge.run (testCalls 1)).Accounted ∧ (testBridge.run (testCalls 1)).queuedWork = 2 :=
  ⟨(ledger_accounts testBridge_deployed (testCalls 1)).1, by decide +kernel⟩

end StoreForwardBridge

end ModbusRTUBridge
