import ModbusRTUBridge.Freshness
import ModbusRTUBridge.LedgerModel
import ModbusRTUBridge.StorageFrame
/-!
# The facade is a line of works and one action

`WorkLine` says what `StoreForwardBridge` is for: works wait in line, each with its position,
and at most one action is out. There is no ring, no ledger, no storage in it, and none of the
answers that report a broken one. `StoreForwardBridge.line` forgets the rest of a facade, and
every call answers alike on both (`exec_line`).
-/

namespace ModbusRTUBridge

open PollPlanner (forwardSelection)

namespace Ingress

/-- The status of a `begin` in a session. -/
def admissible (p : ForwardPlanner) (session : SessionStateView) : Ingress → ForwardPlanStatus
  | .coils work => (p.beginIn work session).1
  | .holding work => (p.beginIn work session).1

end Ingress

structure WorkLine where
  forwardPlanner : ForwardPlanner
  pollPlanner : PollPlanner
  /-- Works that may wait, and works that may be accounted for. -/
  workCapacity : Nat
  ledgerCapacity : Nat
  queue : List StoreForwardWorkSlot := []
  inFlight : Option StoreForwardAction := none
  pollState : PollPlannerState := {}
  requestSequence : UInt32 := 0
  revision : UInt32 := 1

namespace WorkLine

/-! ## Works enter and leave -/

def touched (m : WorkLine) : WorkLine := { m with revision := nextNonZeroSequence32 m.revision }

def admitWork (m : WorkLine) (work : Ingress) (session : SessionStateView) (ctx : Ptr) : StoreForwardAdmission × WorkLine :=
  let planStatus := work.admissible m.forwardPlanner session
  if m.queue.length = m.workCapacity then ({ status := .queueFull }, m)
  else if planStatus ≠ .ready then ({ status := .planRejected, planStatus }, m)
  else if work.identity ∈ m.queue.map (·.workIdentity) then
    ({ status := .ledgerRejected, planStatus, ledgerStatus := .duplicateWork }, m)
  else if m.queue.length < m.ledgerCapacity then
    ({ status := .admitted, planStatus, ledgerStatus := .reserved }, { m with queue := m.queue ++ [work.slot ctx] }.touched)
  else ({ status := .ledgerRejected, planStatus, ledgerStatus := .full }, m)

/-- The first work leaves. -/
def leave (m : WorkLine) : WorkLine := { m with queue := m.queue.tail }

def retire (m : WorkLine) (ok : StoreForwardWorkSlot → Bool) : StoreForwardRetireStatus × StoreForwardRetirement × WorkLine :=
  if m.inFlight.isSome then (.actionInFlight, {}, m)
  else
    match m.queue with
    | [] => (.empty, {}, m)
    | s :: _ =>
      if ok s then (.retired, ⟨s.workIdentity, s.table, s.userContext⟩, m.leave.touched) else (.workStillCurrent, {}, m)

def reset (m : WorkLine) : Bool × WorkLine :=
  if m.inFlight.isSome then (false, m) else (true, { m with queue := [], pollState := {} }.touched)

/-! ## Actions -/

/-- The next fragment of `s`. -/
def writeAction (mem : Memory) (m : WorkLine) (s : StoreForwardWorkSlot) (now : UInt32) (n : UInt16) (ctx : Ptr) :
    StoreForwardAction :=
  let sequence := nextNonZeroSequence32 m.requestSequence
  let write := (s.next mem m.forwardPlanner sequence).2.2
  { kind := .forwardWrite, proposalRevision := m.revision, sequence, write, downstream := downstreamRequestFor write ctx
    scheduling := forwardSelection n, pollCount := n, selectedAt := now, requiresCompletion := true
    workContext := s.userContext }

/-- A poll of `candidate`, unless what the caller asks for is no proper read. -/
def pollAction (m : WorkLine) (candidate : PollCandidate) (selection : PollSelection) (now : UInt32) (n : UInt16) :
    StoreForwardNextStatus × StoreForwardAction :=
  let action : StoreForwardAction :=
    { kind := .poll, proposalRevision := m.revision, scheduling := selection, pollCount := n, selectedAt := now
      requiresCompletion := candidate.requiresDispatch }
  if candidate.requiresDispatch then
    let sequence := nextNonZeroSequence32 m.requestSequence
    let downstream := { candidate.request with sequence }
    if isPollOperation downstream.operation ∧ validateDownstreamRequest downstream = .valid then
      (.ready, { action with sequence, downstream })
    else (.invalidPollRequest, {})
  else (.ready, action)

def nextAction (mem : Memory) (m : WorkLine) (session : SessionStateView) (now : UInt32) (polls : Storage PollCandidate)
    (n : UInt16) (ctx : Ptr) : StoreForwardNextStatus × StoreForwardAction :=
  if m.inFlight.isSome then (.actionInFlight, {})
  else if m.queue.head?.any fun s => !workCurrent s.workIdentity session then (.staleWork, {})
  else
    match m.pollPlanner.select now m.queue.head?.isSome polls n m.pollState with
    | (.invalidStorage, _) => (.invalidPollStorage, {})
    | (.noAction, _) => (.noAction, {})
    | (.selected, selection) =>
      if selection.kind = .poll then m.pollAction (polls.at selection.pollIndex.toNat) selection now n
      else
        match m.queue with
        | s :: _ => (.ready, m.writeAction mem s now n ctx)
        | [] => (.noAction, {})

/-- The action is on its way; a write moves its work on. -/
def depart (m : WorkLine) (a : StoreForwardAction) : WorkLine :=
  { m with
    requestSequence := a.sequence
    inFlight := some a
    queue := if a.kind = .forwardWrite then m.queue.modifyHead (·.advance a.write.quantity) else m.queue }

/-- A poll turn is taken even if nothing is dispatched. -/
def counted (m : WorkLine) (a : StoreForwardAction) : WorkLine :=
  { m with pollState := (PollPlanner.commit a.scheduling a.pollCount a.selectedAt m.pollState).2 }

def admitAction (mem : Memory) (m : WorkLine) (a : StoreForwardAction) (session : SessionStateView)
    (polls : Storage PollCandidate) (n : UInt16) : StoreForwardActionAdmitStatus × WorkLine :=
  if m.inFlight.isSome then (.actionInFlight, m)
  else if a.kind = .none then (.invalidAction, m)
  else if m.nextAction mem session a.selectedAt polls n a.downstream.consistencyContext ≠ (.ready, a) then
    (.staleProposal, m)
  else if a.requiresCompletion then (.admitted, ((m.counted a).depart a).touched)
  else (.consumed, (m.counted a).touched)

/-- The report on a work of another session, as it stood. -/
def strandedSummary (w : PlannedWriteRequest) : WorkCompletionSummary :=
  { work := w.identity.work, outstandingRequests := 1 }

def complete (m : WorkLine) (a : StoreForwardAction) (outcome : DownstreamOutcome) (session : SessionStateView) :
    StoreForwardCompletion × WorkLine :=
  match m.inFlight with
  | none => ({ kind := a.kind, outcome }, m)
  | some b =>
    let result : StoreForwardCompletion := { kind := b.kind, outcome, workContext := b.workContext }
    let landed := { m with inFlight := none }
    if a ≠ b then ({ result with status := .actionMismatch }, m)
    else if !isKnownDownstreamOutcome outcome then ({ result with status := .invalidOutcome }, m)
    else if b.kind = .poll then ({ result with status := .completed }, landed.touched)
    else if workCurrent b.write.identity.work session then
      ({ result with
          status := .completed, decision := decisionFor b.write outcome, work := summaryFor b.write outcome
          workRetired := retires b.write outcome },
        (if retires b.write outcome then landed.leave else landed).touched)
    else
      ({ result with
          status := .staleSession, decision := rejectedDecision .staleSession, work := strandedSummary b.write
          workRetired := true },
        landed.leave.touched)

/-- One public call. -/
def exec (m : WorkLine) (c : Call) : Res × WorkLine :=
  match c.op with
  | .admitWork work session ctx => (.admission (m.admitWork work session ctx).1, (m.admitWork work session ctx).2)
  | .nextAction session now polls n ctx =>
    (.preview (m.nextAction c.memory session now polls n ctx).1 (m.nextAction c.memory session now polls n ctx).2, m)
  | .admitAction a session polls n =>
    (.actionAdmission (m.admitAction c.memory a session polls n).1, (m.admitAction c.memory a session polls n).2)
  | .complete a outcome session => (.completion (m.complete a outcome session).1, (m.complete a outcome session).2)
  | .discardOneStaleWork session =>
    let r := m.retire fun s => !workCurrent s.workIdentity session
    (.retirement r.1 r.2.1, r.2.2)
  | .abandonFront =>
    let r := m.retire fun _ => true
    (.retirement r.1 r.2.1, r.2.2)
  | .reset => (.reset m.reset.1, m.reset.2)

end WorkLine

/-- The answer blames what is behind the facade: its ring, its ledger, or a plan that broke off. -/
def Res.broken : Res → Bool
  | .admission r => r.status == .invalidStorage ||
      (r.status == .ledgerRejected && r.ledgerStatus != .duplicateWork && r.ledgerStatus != .full)
  | .preview status _ => status == .invalidStorage || status == .planningFailed
  | .actionAdmission status => status == .ledgerRejected || status == .fairnessRejected
  | .completion r => r.status == .ledgerRejected
  | .retirement _ _ | .reset _ => false

namespace WorkLine

theorem nextAction_sound (mem : Memory) (m : WorkLine) (session : SessionStateView) (now : UInt32)
    (polls : Storage PollCandidate) (n : UInt16) (ctx : Ptr) :
    (m.nextAction mem session now polls n ctx).1 ≠ .invalidStorage ∧
    (m.nextAction mem session now polls n ctx).1 ≠ .planningFailed := by
  unfold nextAction pollAction
  simp only
  repeat' split
  all_goals exact ⟨nofun, nofun⟩

theorem complete_sound (m : WorkLine) (a : StoreForwardAction) (outcome : DownstreamOutcome) (session : SessionStateView) :
    (m.complete a outcome session).1.status ≠ .ledgerRejected := by
  unfold complete
  split
  · exact nofun
  · simp only
    repeat' split
    all_goals exact nofun

/-- A line has nothing behind it that could break. -/
theorem exec_sound (m : WorkLine) (c : Call) : (m.exec c).1.broken = false := by
  obtain ⟨mem, op⟩ := c
  cases op with
  | admitWork work session ctx =>
    simp only [exec, Res.broken, admitWork]
    repeat' split
    all_goals rfl
  | nextAction session now polls n ctx =>
    obtain ⟨hstorage, hplan⟩ := nextAction_sound mem m session now polls n ctx
    simp [exec, Res.broken, hstorage, hplan]
  | admitAction a session polls n =>
    simp only [exec, Res.broken, admitAction]
    repeat' split
    all_goals rfl
  | complete a outcome session =>
    have hledger := complete_sound m a outcome session
    simp [exec, Res.broken, hledger]
  | _ => rfl

end WorkLine

/-! ## What a facade is, seen as a line -/

namespace StoreForwardBridge

def line (b : StoreForwardBridge) : WorkLine where
  forwardPlanner := b.forwardPlanner
  pollPlanner := b.pollPlanner
  workCapacity := b.workQueue.capacity.toNat
  ledgerCapacity := b.completionLedger.capacity.toNat
  queue := b.queue
  inFlight := if b.inFlight then some b.inFlightAction else none
  pollState := b.pollState
  requestSequence := b.requestSequence
  revision := b.revision

variable {b : StoreForwardBridge} {session : SessionStateView} {mem : Memory} {now : UInt32}
  {polls : Storage PollCandidate} {n : UInt16} {ctx : Ptr} {a : StoreForwardAction} {outcome : DownstreamOutcome}

@[simp] theorem line_inFlight_isSome (b : StoreForwardBridge) : b.line.inFlight.isSome = b.inFlight := by
  unfold line
  cases b.inFlight <;> rfl

/-! ## Admission of a work -/

/-- The works on file are the works in line. -/
theorem Coherent.onFile_iff (h : b.Coherent) (w : WorkIdentity) :
    (b.records w).isSome = true ↔ w ∈ b.queue.map (·.workIdentity) := by
  constructor
  · intro hw
    obtain ⟨r, hr⟩ := Option.isSome_iff_exists.1 hw
    exact h.filed.keys w r hr
  · intro hw
    obtain ⟨s, hs, rfl⟩ := List.mem_map.1 hw
    rcases h.record_cases hs with ⟨a, _, _, _, _, hr⟩ | ⟨_, _, hr⟩
    · rw [hr]; rfl
    · rw [hr]; rfl

theorem Coherent.ledger_size (h : b.Coherent) : b.completionLedger.size.toNat = b.queue.length := by
  have hkeys : {w | (b.completionLedger.lookup w).isSome = true} = ↑(b.queue.map (·.workIdentity)).toFinset := by
    ext w
    rw [Finset.mem_coe, List.mem_toFinset]
    exact h.onFile_iff w
  have hcard := SlotTable.ncard_keys h.ledger.distinct
  rw [h.ledger.size_eq, ← hcard]
  show {w | (b.completionLedger.lookup w).isSome = true}.ncard = _
  rw [hkeys, Set.ncard_coe_finset, List.toFinset_card_of_nodup h.filed.nodup, List.length_map]

theorem Coherent.admitWork_line {Value : Type} [AppliedPayload Value] [LawfulPayload Value] (h : b.Coherent)
    (session : SessionStateView) (ctx : Ptr) (work : IngressWorkView Value) {w : Ingress} (hid : w.identity = work.identity)
    (hplan : w.admissible b.forwardPlanner session = (b.forwardPlanner.beginIn work session).1)
    (hslot : w.slot ctx = freshSlot work ctx) :
    (b.admitWork work session ctx).1 = (b.line.admitWork w session ctx).1 ∧
    (b.admitWork work session ctx).2.line = (b.line.admitWork w session ctx).2 := by
  have hfull : b.workQueue.full = true ↔ b.line.queue.length = b.line.workCapacity := FixedRingQueue.full_iff
  have hplan' : w.admissible b.line.forwardPlanner session = (b.forwardPlanner.beginIn work session).1 := hplan
  unfold StoreForwardBridge.admitWork WorkLine.admitWork
  simp only [hid, hplan', hslot]
  rw [if_neg (by simp [h.validStorage])]
  by_cases hf : b.workQueue.full = true
  · rw [if_pos hf, if_pos (hfull.1 hf)]
    exact ⟨rfl, rfl⟩
  rw [if_neg hf, if_neg fun e => hf (hfull.2 e)]
  by_cases hready : (b.forwardPlanner.beginIn work session).1 = .ready
  swap
  · rw [if_pos hready, if_pos hready]
    exact ⟨rfl, rfl⟩
  obtain ⟨hcur, hbegin, hcursor⟩ := ForwardPlanner.beginIn_ready hready
  have hstatus := CompletionLedger.reserve_status h.ledger work.identity work.delivery
  have hacc := (ForwardPlanner.begin_ready h.routes hbegin).accepted
  rw [if_neg (by simp [workCurrent_valid hcur, hacc]), h.ledger_size] at hstatus
  have hfile : (b.completionLedger.lookup work.identity).isSome = true ↔
    work.identity ∈ b.line.queue.map (·.workIdentity) := h.onFile_iff work.identity
  simp only [hready, hcursor, ne_eq, not_true_eq_false, if_false]
  by_cases hdup : work.identity ∈ b.line.queue.map (·.workIdentity)
  · rw [if_pos (hfile.2 hdup)] at hstatus
    have hnoop := CompletionLedger.reserve_noop (l := b.completionLedger) (w := work.identity) (d := work.delivery)
      (by simp [hstatus])
    simp only [hstatus, hnoop, hdup, reduceCtorEq, not_false_eq_true, if_true, and_self]
  rw [if_neg fun e => hdup (hfile.1 e)] at hstatus
  by_cases hroom : b.line.queue.length < b.line.ledgerCapacity
  · rw [if_pos (show b.queue.length < b.completionLedger.capacity.toNat from hroom)] at hstatus
    obtain ⟨hpushed, _, hlist⟩ := FixedRingQueue.tryPush_spec h.queue (by simpa using hf) (freshSlot work ctx)
    have hqcap : (b.workQueue.tryPush (freshSlot work ctx)).2.capacity = b.workQueue.capacity :=
      b.workQueue.step_capacity (.tryPush (freshSlot work ctx))
    have hlcap := (CompletionLedger.within_reserve b.completionLedger work.identity work.delivery).capacity
    simp only [hstatus, hpushed, hdup, hroom, not_true_eq_false, Bool.not_true, Bool.false_eq_true, if_true, if_false]
    refine ⟨trivial, ?_⟩
    simp only [line, WorkLine.touched, advanceRevision, StoreForwardBridge.queue, hlist, hqcap, hlcap]
    rfl
  · rw [if_neg (show ¬ b.queue.length < b.completionLedger.capacity.toNat from hroom)] at hstatus
    have hnoop := CompletionLedger.reserve_noop (l := b.completionLedger) (w := work.identity) (d := work.delivery)
      (by simp [hstatus])
    simp only [hstatus, hnoop, hdup, hroom, reduceCtorEq, not_false_eq_true, if_true, if_false, and_self]

/-! ## Previews -/

theorem previewPoll_line (h : polls.isNone = false) {i : UInt16} (hi : i.toNat < n.toNat) (now : UInt32) :
    let preview := b.previewPoll polls n
      { kind := .poll, proposalRevision := b.revision, scheduling := .fromCandidateSet .poll i n, pollCount := n
        selectedAt := now }
    (preview.status, preview.action) = b.line.pollAction (polls.at i.toNat) (.fromCandidateSet .poll i n) now n := by
  have hok : ¬ (polls.isNone = true ∨ (PollSelection.fromCandidateSet .poll i n).pollIndex ≥ n) := by
    rw [ge_iff_le, UInt16.le_iff_toNat_le, h]
    simp [PollSelection.fromCandidateSet]
    omega
  unfold previewPoll WorkLine.pollAction
  rw [if_neg hok]
  cases hreq : (polls.at i.toNat).requiresDispatch with
  | false => simp [PollSelection.fromCandidateSet, hreq, line]
  | true =>
    simp only [PollSelection.fromCandidateSet, hreq, line, Bool.not_true, Bool.false_eq_true, if_false, if_true]
    split
    · rename_i hbad
      refine (if_neg fun hgood => ?_).symm
      simp [hgood.1, hgood.2] at hbad
    · rename_i hgood
      refine (if_pos ?_).symm
      simpa [not_or] using hgood

theorem nextAction_line (h : b.Coherent) (mem : Memory) (session : SessionStateView) (now : UInt32)
    (polls : Storage PollCandidate) (n : UInt16) (ctx : Ptr) :
    b.nextAction mem session now polls n ctx = b.line.nextAction mem session now polls n ctx := by
  have hqueue : b.line.queue = b.queue := rfl
  unfold nextAction previewAction WorkLine.nextAction
  rw [line_inFlight_isSome, hqueue, h.front_eq]
  rw [if_neg (by simp [h.validStorage])]
  by_cases hf : b.inFlight = true
  · rw [if_pos hf, if_pos hf]
  rw [if_neg hf, if_neg hf]
  simp only
  by_cases hstale : (b.queue.head?.any fun s => !workCurrent s.workIdentity session) = true
  · rw [if_pos hstale, if_pos hstale]
  rw [if_neg hstale, if_neg hstale]
  show _ = match b.pollPlanner.select now b.queue.head?.isSome polls n b.pollState with
    | (.invalidStorage, _) => _
    | (.noAction, _) => _
    | (.selected, selection) => _
  obtain ⟨st, selection, hsel⟩ : ∃ st sel, b.pollPlanner.select now b.queue.head?.isSome polls n b.pollState = (st, sel) :=
    ⟨_, _, rfl⟩
  rw [hsel]
  cases st with
  | invalidStorage => rfl
  | noAction => rfl
  | selected =>
    obtain ⟨hstore, hkind⟩ := PollPlanner.select_selected hsel
    rcases hkind with ⟨rfl, hready⟩ | ⟨i, rfl, hfirst⟩
    · obtain ⟨s, hs⟩ := Option.isSome_iff_exists.1 hready
      obtain ⟨rest, hq⟩ : ∃ rest, b.queue = s :: rest := by
        cases hq : b.queue with
        | nil => rw [hq] at hs; cases hs
        | cons s' rest => rw [hq] at hs; cases hs; exact ⟨rest, rfl⟩
      have hok := h.filed.slots s (by rw [hq]; exact List.mem_cons_self)
      have hrec := h.filed.front s hs
      rw [outstanding_idle (by simpa using hf)] at hrec
      obtain ⟨w, hn, _⟩ := StoreForwardWorkSlot.next_spec h.routes hok hrec.1 mem
        (nextNonZeroSequence32_ne_zero b.requestSequence)
      obtain ⟨h1, h2, _⟩ := previewWrite_spec ctx
        { kind := .forwardWrite, proposalRevision := b.revision, scheduling := forwardSelection n, pollCount := n
          selectedAt := now } hok hn
      have hw : (s.next mem b.line.forwardPlanner (nextNonZeroSequence32 b.line.requestSequence)).2.2 = w := by
        show (s.next mem b.forwardPlanner (nextNonZeroSequence32 b.requestSequence)).2.2 = w
        rw [hn]
      simp only [hq, List.head?_cons, PollSelection.fromCandidateSet, reduceCtorEq, if_false, ne_eq,
        not_true_eq_false] at h1 h2 ⊢
      rw [h1, h2]
      simp only [WorkLine.writeAction, hw, PollSelection.fromCandidateSet]
      rfl
    · have hn : n ≠ 0 := fun e => absurd hfirst.lt (by simp [e])
      exact previewPoll_line (hstore.resolve_left hn) hfirst.lt now

/-! ## Admission of an action -/

theorem admitAction_line (h : b.Coherent) (mem : Memory) (a : StoreForwardAction) (session : SessionStateView)
    (polls : Storage PollCandidate) (n : UInt16) :
    (b.admitAction mem a session polls n).1 = (b.line.admitAction mem a session polls n).1 ∧
    (b.admitAction mem a session polls n).2.line = (b.line.admitAction mem a session polls n).2 := by
  have hwithin := within_admitAction h mem a session polls n
  unfold WorkLine.admitAction
  rw [line_inFlight_isSome, ← nextAction_line h]
  by_cases hf : b.inFlight = true
  · rw [if_pos hf]
    simp only [StoreForwardBridge.admitAction, hf, if_true, and_self]
  have hidle : b.inFlight = false := by simpa using hf
  rw [if_neg hf]
  by_cases hk : a.kind = .none
  · rw [if_pos hk]
    simp only [StoreForwardBridge.admitAction, hidle, hk, Bool.false_eq_true, if_true, if_false, and_self]
  rw [if_neg hk]
  by_cases hnext : b.nextAction mem session a.selectedAt polls n a.downstream.consistencyContext = (.ready, a)
  swap
  · rw [if_pos hnext]
    obtain ⟨hstatus, hstate⟩ := admitAction_refused (b := b) (a := a) fun e => hnext e.2
    refine ⟨?_, by rw [hstate]⟩
    rcases hstatus with ⟨_, e⟩ | ⟨_, e⟩ | e
    · exact absurd e hf
    · exact absurd e hk
    · exact e
  rw [if_neg fun e => e hnext]
  rcases admitAction_cases h mem a session polls n with
    ⟨hno, _⟩ | ⟨_, _, ⟨i, hp, hreq, heq⟩ | ⟨i, hp, hreq, heq⟩ | ⟨front, hw, heq⟩⟩
  · exact absurd ⟨hidle, hnext⟩ hno
  · rw [heq, if_neg (by simp [hreq])]
    exact ⟨rfl, rfl⟩
  · have hkind : a.kind = .poll := by rw [hp.shape]
    rw [heq, if_pos hreq]
    refine ⟨rfl, ?_⟩
    simp only [line, afterPoll, WorkLine.counted, WorkLine.depart, WorkLine.touched, hkind, reduceCtorEq, if_false, if_true]
    rfl
  · have hkind : a.kind = .forwardWrite := by rw [hw.shape]
    have hreq : a.requiresCompletion = true := by rw [hw.shape]
    rw [heq] at hwithin ⊢
    rw [if_pos hreq]
    have hqcap : (b.afterWrite front a).workQueue.capacity = b.workQueue.capacity := hwithin.queue.capacity
    have hlcap : (b.afterWrite front a).completionLedger.capacity = b.completionLedger.capacity :=
      hwithin.ledger.capacity
    have hhead := hw.head
    cases hq : b.queue with
    | nil => rw [hq] at hhead; cases hhead
    | cons s rest =>
      rw [hq] at hhead
      cases hhead
      obtain ⟨_, hlist⟩ := FixedRingQueue.writeFront_spec h.queue (y := front.advance a.write.quantity) hq
      have hafter : (b.afterWrite front a).queue = front.advance a.write.quantity :: rest := hlist
      refine ⟨rfl, ?_⟩
      simp only [line, hafter, hqcap, hlcap, WorkLine.counted, WorkLine.depart, WorkLine.touched, hkind, if_true, hq,
        List.modifyHead_cons]
      rfl

/-! ## Completion and retirement -/

theorem summarize_busyRecord (w : PlannedWriteRequest) :
    CompletionLedger.summarize (busyRecord w) = WorkLine.strandedSummary w := by
  by_cases hk : w.identity.fragmentIndex = 0
  · simp [CompletionLedger.summarize, busyRecord, CompletionLedger.issuedSlot, recordAt, WorkLine.strandedSummary, hk]
  · simp [CompletionLedger.summarize, busyRecord, CompletionLedger.issuedSlot, recordAt, WorkLine.strandedSummary, hk]

/-- The facade with its front gone. -/
theorem line_popFront (h : b.workQueue.WF) {s : StoreForwardWorkSlot} {rest : List StoreForwardWorkSlot}
    (hq : b.queue = s :: rest) : b.workQueue.popFront.2.toList = b.queue.tail ∧
      b.workQueue.popFront.2.capacity = b.workQueue.capacity := by
  obtain ⟨_, _, hlist⟩ := FixedRingQueue.popFront_spec h hq
  exact ⟨by rw [hlist, hq]; rfl, b.workQueue.step_capacity .popFront⟩

theorem complete_line (h : b.Coherent) (a : StoreForwardAction) (outcome : DownstreamOutcome) (session : SessionStateView) :
    (b.complete a outcome session).1 = (b.line.complete a outcome session).1 ∧
    (b.complete a outcome session).2.line = (b.line.complete a outcome session).2 := by
  have hwithin := within_complete h.queue a outcome session
  cases hf : b.inFlight with
  | false => simp [complete, WorkLine.complete, line, hf]
  | true =>
    have hline : b.line.inFlight = some b.inFlightAction := by simp [line, hf]
    unfold WorkLine.complete
    simp only [hline]
    by_cases ha : a = b.inFlightAction
    swap
    · have hne : sameStoreForwardAction a b.inFlightAction = false := by
        rw [Bool.eq_false_iff, ne_eq, sameStoreForwardAction_iff]
        exact ha
      simp [complete, hf, ha, hne]
    by_cases hknown : isKnownDownstreamOutcome outcome = true
    swap
    · have hsame : sameStoreForwardAction b.inFlightAction b.inFlightAction = true := sameStoreForwardAction_iff.2 rfl
      simp only [complete, hf, ha, hsame, hknown, Bool.not_true, Bool.false_eq_true, if_false, if_true, Bool.not_false,
        ne_eq, not_true_eq_false, and_self]
    rcases complete_cases h a outcome session with hno | ⟨_, _, _, ⟨hk, heq⟩ |
      ⟨s, rest, l, ho, hq, hcur, heq, hl, hlook⟩ | ⟨s, rest, l, ho, hq, hcur, heq, hl, hlook⟩⟩
    · exact absurd ⟨hf, ha.symm, hknown⟩ hno
    · subst ha
      rw [heq]
      simp [hknown, hk, line, landed, clearInFlight, advanceRevision, WorkLine.touched, StoreForwardBridge.queue]
    · subst ha
      have hk : b.inFlightAction.kind = .forwardWrite := kind_of_outstanding ho
      obtain ⟨hpop, _⟩ := line_popFront h.queue hq
      rw [heq] at hwithin ⊢
      have hlcap : (b.afterSettle b.inFlightAction outcome l).completionLedger.capacity = b.completionLedger.capacity :=
        hwithin.ledger.capacity
      have hqcap : (b.afterSettle b.inFlightAction outcome l).workQueue.capacity = b.workQueue.capacity :=
        hwithin.queue.capacity
      have hqueue : (b.afterSettle b.inFlightAction outcome l).queue =
          if retires b.inFlightAction.write outcome then b.queue.tail else b.queue := by
        simp only [afterSettle, StoreForwardBridge.queue]
        split
        · exact hpop
        · rfl
      simp only [hknown, hk, hcur, ne_eq, not_true_eq_false, Bool.not_true, Bool.false_eq_true, if_false, if_true,
        reduceCtorEq, settledResult]
      refine ⟨trivial, ?_⟩
      simp only [line, hqueue, hlcap, hqcap]
      cases retires b.inFlightAction.write outcome <;> rfl
    · subst ha
      have hk : b.inFlightAction.kind = .forwardWrite := kind_of_outstanding ho
      obtain ⟨hpop, _⟩ := line_popFront h.queue hq
      rw [heq] at hwithin ⊢
      have hlcap : (b.afterStale l).completionLedger.capacity = b.completionLedger.capacity := hwithin.ledger.capacity
      have hqcap : (b.afterStale l).workQueue.capacity = b.workQueue.capacity := hwithin.queue.capacity
      have hqueue : (b.afterStale l).queue = b.queue.tail := hpop
      simp only [hknown, hk, hcur, ne_eq, not_true_eq_false, Bool.not_true, Bool.false_eq_true, if_false,
        reduceCtorEq, staleResult, summarize_busyRecord]
      refine ⟨trivial, ?_⟩
      simp only [line, hqueue, hlcap, hqcap]
      rfl

/-- The front work leaves with its record. -/
theorem line_afterRetire (h : b.Coherent) (hf : b.inFlight = false) {s : StoreForwardWorkSlot}
    {rest : List StoreForwardWorkSlot} (hq : b.queue = s :: rest) :
    (b.afterRetire s).line = b.line.leave.touched := by
  obtain ⟨hpop, hcap⟩ := line_popFront h.queue hq
  have hlcap := (CompletionLedger.within_abandon b.completionLedger s.workIdentity).capacity
  have hqueue : (b.afterRetire s).queue = b.queue.tail := hpop
  simp only [line, hqueue, WorkLine.leave, WorkLine.touched]
  simp only [afterRetire, hcap, hlcap, hf]

theorem retire_line (h : b.Coherent) (session : SessionStateView) :
    (b.discardOneStaleWork session).1 = (b.line.retire fun s => !workCurrent s.workIdentity session).1 ∧
    (b.discardOneStaleWork session).2.1 = (b.line.retire fun s => !workCurrent s.workIdentity session).2.1 ∧
    (b.discardOneStaleWork session).2.2.line = (b.line.retire fun s => !workCurrent s.workIdentity session).2.2 := by
  have hqueue : b.line.queue = b.queue := rfl
  unfold discardOneStaleWork WorkLine.retire
  rw [line_inFlight_isSome, h.front_eq, hqueue]
  by_cases hf : b.inFlight = true
  · rw [if_pos hf, if_pos hf]
    exact ⟨rfl, rfl, rfl⟩
  rw [if_neg hf, if_neg hf]
  cases hq : b.queue with
  | nil => exact ⟨rfl, rfl, rfl⟩
  | cons s rest =>
    simp only [List.head?_cons]
    by_cases hcur : workCurrent s.workIdentity session = true
    · rw [if_pos hcur, if_neg (by simp [hcur])]
      exact ⟨rfl, rfl, rfl⟩
    · rw [if_neg hcur, if_pos (by simpa using hcur), retireFront_eq h hq]
      exact ⟨rfl, rfl, line_afterRetire h (by simpa using hf) hq⟩

theorem abandonFront_line (h : b.Coherent) :
    b.abandonFront.1 = (b.line.retire fun _ => true).1 ∧ b.abandonFront.2.1 = (b.line.retire fun _ => true).2.1 ∧
    b.abandonFront.2.2.line = (b.line.retire fun _ => true).2.2 := by
  have hqueue : b.line.queue = b.queue := rfl
  unfold abandonFront WorkLine.retire
  rw [line_inFlight_isSome, h.front_eq, hqueue]
  by_cases hf : b.inFlight = true
  · rw [if_pos hf, if_pos hf]
    exact ⟨rfl, rfl, rfl⟩
  rw [if_neg hf, if_neg hf]
  cases hq : b.queue with
  | nil => exact ⟨rfl, rfl, rfl⟩
  | cons s rest =>
    simp only [List.head?_cons]
    rw [retireFront_eq h hq, if_pos trivial]
    exact ⟨rfl, rfl, line_afterRetire h (by simpa using hf) hq⟩

theorem reset_line (h : b.Coherent) : b.reset.1 = b.line.reset.1 ∧ b.reset.2.line = b.line.reset.2 := by
  have hwithin := exec_within h ⟨⟨fun _ => false, fun _ => 0⟩, .reset⟩
  simp only [exec] at hwithin
  unfold WorkLine.reset
  rw [line_inFlight_isSome]
  rcases reset_cases h with ⟨heq, hf⟩ | ⟨hf, q, l, heq, hq, hqueue, hl, hlook⟩
  · rw [heq, if_pos hf]
    exact ⟨rfl, rfl⟩
  · rw [heq] at hwithin ⊢
    rw [if_neg (by simp [hf])]
    have hqcap : q.capacity = b.workQueue.capacity := hwithin.queue.capacity
    have hlcap : l.capacity = b.completionLedger.capacity := hwithin.ledger.capacity
    refine ⟨rfl, ?_⟩
    simp only [line, StoreForwardBridge.queue, hqueue, hqcap, hlcap, hf, WorkLine.touched]

/-! ## Every call -/

/-- **One call**: the same answer, and the same line afterwards. -/
theorem exec_line (h : b.Coherent) (c : Call) :
    (b.exec c).1 = (b.line.exec c).1 ∧ (b.exec c).2.line = (b.line.exec c).2 := by
  obtain ⟨mem, op⟩ := c
  cases op with
  | admitWork work session ctx =>
    cases work with
    | coils work =>
      obtain ⟨hr, hs⟩ := h.admitWork_line session ctx work (w := .coils work) rfl rfl rfl
      exact ⟨congrArg Res.admission hr, hs⟩
    | holding work =>
      obtain ⟨hr, hs⟩ := h.admitWork_line session ctx work (w := .holding work) rfl rfl rfl
      exact ⟨congrArg Res.admission hr, hs⟩
  | nextAction session now polls n ctx =>
    simp only [exec, WorkLine.exec, nextAction_line h, and_self]
  | admitAction a session polls n =>
    obtain ⟨hr, hs⟩ := admitAction_line h mem a session polls n
    exact ⟨congrArg Res.actionAdmission hr, hs⟩
  | complete a outcome session =>
    obtain ⟨hr, hs⟩ := complete_line h a outcome session
    exact ⟨congrArg Res.completion hr, hs⟩
  | discardOneStaleWork session =>
    obtain ⟨hstatus, hr, hs⟩ := retire_line h session
    simp only [exec, WorkLine.exec, hstatus, hr, hs, and_self]
  | abandonFront =>
    obtain ⟨hstatus, hr, hs⟩ := abandonFront_line h
    simp only [exec, WorkLine.exec, hstatus, hr, hs, and_self]
  | reset =>
    obtain ⟨hr, hs⟩ := reset_line h
    exact ⟨congrArg Res.reset hr, hs⟩

/-! ## Every run -/

/-- A line nobody has joined yet. -/
def emptyLine (b : StoreForwardBridge) : WorkLine where
  forwardPlanner := b.forwardPlanner
  pollPlanner := b.pollPlanner
  workCapacity := b.workQueue.capacity.toNat
  ledgerCapacity := b.completionLedger.capacity.toNat

theorem Deployed.line_empty (h : b.Deployed) : b.line = b.emptyLine := by
  obtain ⟨planner, storage, capacity, slots, ledgerCapacity, pollPlanner, rfl⟩ := h.constructed
  rfl

/-- Every run answers as the line does, from there on. -/
theorem run_line (h : b.Coherent) (calls : List Call) :
    (b.history calls).map Machine.Event.output = (Machine.trace WorkLine.exec b.line calls).map Machine.Event.output ∧
    (b.run calls).line = Machine.final WorkLine.exec b.line calls := by
  have hstep : ∀ (s : StoreForwardBridge) (m : WorkLine) (c : Call), s.Coherent ∧ s.line = m →
      (s.exec c).1 = (m.exec c).1 ∧ (s.exec c).2.Coherent ∧ (s.exec c).2.line = (m.exec c).2 := by
    rintro s m c ⟨hs, rfl⟩
    obtain ⟨hout, hline⟩ := exec_line hs c
    exact ⟨hout, exec_coherent hs c, hline⟩
  obtain ⟨houts, _, hfinal⟩ := Machine.refines hstep ⟨h, rfl⟩ calls
  exact ⟨houts, hfinal⟩

/-- No answer of a run blames the ring, the ledger or the plan: the line never does. -/
theorem run_sound (h : b.Coherent) (calls : List Call) : ∀ e ∈ b.history calls, e.output.broken = false := by
  intro e he
  have hout := List.mem_map_of_mem (f := Machine.Event.output) he
  rw [(run_line h calls).1] at hout
  obtain ⟨e', he', heq⟩ := List.mem_map.1 hout
  obtain ⟨_, hanswer⟩ := Machine.inv_trace WorkLine.exec (P := fun _ => True) (fun _ _ _ => trivial) trivial calls e' he'
  rw [← heq, hanswer]
  exact WorkLine.exec_sound _ _

/-- **The facade refines the line.** Every sequence of calls gets from a deployed facade the answers
it gets from an empty line, and the facade it leaves is the line it leaves, whatever the rings and
ledger slots behind it look like; so no answer blames those. -/
theorem facade_refines_line (hb : b.Deployed) (calls : List Call) :
    (b.history calls).map Machine.Event.output = (Machine.trace WorkLine.exec b.emptyLine calls).map Machine.Event.output ∧
    (b.run calls).line = Machine.final WorkLine.exec b.emptyLine calls ∧
    ∀ e ∈ b.history calls, e.output.broken = false := by
  rw [← hb.line_empty]
  obtain ⟨hanswers, hline⟩ := run_line hb.coherent calls
  exact ⟨hanswers, hline, run_sound hb.coherent calls⟩

/-- Both works of the test in line, one fragment behind. -/
theorem facade_refines_line_test :
    (testBridge.run (testCalls 1)).line = Machine.final WorkLine.exec testBridge.emptyLine (testCalls 1) ∧
    (testBridge.run (testCalls 1)).line.queue.map (·.sourceOffset) = [2, 0] :=
  ⟨(facade_refines_line testBridge_deployed (testCalls 1)).2.1, by decide +kernel⟩

/-- **Nothing outside the caller's arrays matters, and nothing there is touched.** Two facades set
up alike over different storage answer every sequence of calls alike, whatever the arrays held
before and hold beyond their capacities; and no sequence of calls writes there. -/
theorem storage_contained {b' : StoreForwardBridge} (hb : b.Deployed) (hb' : b'.Deployed)
    (hconfig : b.emptyLine = b'.emptyLine) (calls : List Call) :
    (b.history calls).map Machine.Event.output = (b'.history calls).map Machine.Event.output ∧ Within b (b.run calls) := by
  have hline : b.line = b'.line := hb.line_empty.trans (hconfig.trans hb'.line_empty.symm)
  rw [(run_line hb.coherent calls).1, (run_line hb'.coherent calls).1, hline]
  exact ⟨rfl, run_within hb.coherent calls⟩

/-- The facade of the test over arrays that held other works before. -/
def usedBridge : StoreForwardBridge :=
  { testBridge with
    workQueue := { testBridge.workQueue with storage := some fun i => { quantity := 7, fragmentIndex := UInt16.ofNat i } }
    completionLedger := .create (some fun _ => CompletionLedger.reservedSlot ⟨1, 9⟩ .tracked) 2 }

theorem usedBridge_deployed : usedBridge.Deployed :=
  ⟨⟨_, _, _, _, _, _, rfl⟩, by decide, by decide, by decide⟩

theorem storage_contained_test :
    (testBridge.history (testCalls 3)).map Machine.Event.output = (usedBridge.history (testCalls 3)).map Machine.Event.output ∧
    (testBridge.run (testCalls 3)).completionLedger.slot 2 = {} ∧
    (usedBridge.run (testCalls 3)).completionLedger.slot 2 = CompletionLedger.reservedSlot ⟨1, 9⟩ .tracked :=
  ⟨(storage_contained testBridge_deployed usedBridge_deployed rfl (testCalls 3)).1, by decide +kernel, by decide +kernel⟩

end StoreForwardBridge

end ModbusRTUBridge
