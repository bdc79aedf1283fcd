import ModbusRTUBridge.Coherence
/-!
# What the facade proposes and what it admits

On a coherent facade a preview is either refused for a reason of the caller's, or it proposes
one of two things: the next fragment of the front work (`WriteProposal`) or a due poll
(`PollProposal`). `admitAction` accepts exactly the action a preview with the same arguments
proposes, and none of its later guards refuses it.
-/

namespace ModbusRTUBridge

open PollPlanner (forwardSelection FirstDue scanStart)

/-- The slot `admitAction` writes back to the front of the queue. -/
def StoreForwardPreview.movedFront (preview : StoreForwardPreview) (front : StoreForwardWorkSlot) : StoreForwardWorkSlot :=
  if front.table = .coils then front.updateFrom preview.nextCoilCursor else front.updateFrom preview.nextHoldingCursor

namespace StoreForwardBridge

variable {b : StoreForwardBridge} {mem : Memory} {session : SessionStateView} {now : UInt32}
  {polls : Storage PollCandidate} {n : UInt16} {ctx : Ptr} {a : StoreForwardAction} {front : StoreForwardWorkSlot}

/-- `a` is the next fragment of the front work. -/
structure WriteProposal (mem : Memory) (b : StoreForwardBridge) (session : SessionStateView) (now : UInt32)
    (polls : Storage PollCandidate) (n : UInt16) (ctx : Ptr) (front : StoreForwardWorkSlot) (a : StoreForwardAction) :
    Prop where
  head : b.queue.head? = some front
  current : workCurrent front.workIdentity session = true
  selected : b.pollPlanner.select now true polls n b.pollState = (.selected, forwardSelection n)
  sequence : a.sequence = nextNonZeroSequence32 b.requestSequence
  next : front.next mem b.forwardPlanner a.sequence = (.planned, front.advance a.write.quantity, a.write)
  takes : front.Takes a.write a.sequence
  shape : a =
    { kind := .forwardWrite, proposalRevision := b.revision, sequence := a.sequence, write := a.write
      downstream := downstreamRequestFor a.write ctx, scheduling := forwardSelection n, pollCount := n
      selectedAt := now, requiresCompletion := true, workContext := front.userContext }

/-- `a` is the first due poll. -/
structure PollProposal (b : StoreForwardBridge) (session : SessionStateView) (now : UInt32)
    (polls : Storage PollCandidate) (n : UInt16) (i : UInt16) (a : StoreForwardAction) : Prop where
  current : ∀ s ∈ b.queue.head?, workCurrent s.workIdentity session = true
  selected : b.pollPlanner.select now b.queue.head?.isSome polls n b.pollState = (.selected, .fromCandidateSet .poll i n)
  lt : i.toNat < n.toNat
  shape : a =
    { kind := .poll, proposalRevision := b.revision, scheduling := .fromCandidateSet .poll i n, pollCount := n
      selectedAt := now, requiresCompletion := (polls.at i.toNat).requiresDispatch, sequence := a.sequence
      downstream := a.downstream }
  dispatched : a.requiresCompletion = true → a.sequence = nextNonZeroSequence32 b.requestSequence ∧
    a.downstream = { (polls.at i.toNat).request with sequence := a.sequence } ∧
    isPollOperation a.downstream.operation = true ∧ validateDownstreamRequest a.downstream = .valid
  skipped : a.requiresCompletion = false → a.sequence = 0 ∧ a.downstream = {}

theorem previewWrite_spec (ctx : Ptr) (action : StoreForwardAction) {s' : StoreForwardWorkSlot} {w : PlannedWriteRequest}
    (hok : front.Ok b.forwardPlanner)
    (hn : front.next mem b.forwardPlanner (nextNonZeroSequence32 b.requestSequence) = (.planned, s', w)) :
    (b.previewWrite mem front action ctx).status = .ready ∧
    (b.previewWrite mem front action ctx).action =
      { action with
        sequence := nextNonZeroSequence32 b.requestSequence, requiresCompletion := true
        workContext := front.userContext, write := w, downstream := downstreamRequestFor w ctx } ∧
    (b.previewWrite mem front action ctx).movedFront front = s' := by
  rcases hok.plannable with ⟨ht, _⟩ | ⟨ht, _⟩
  · obtain ⟨st, c, r, hr⟩ : ∃ st c r, b.forwardPlanner.next mem (front.asCursor Bool)
        (nextNonZeroSequence32 b.requestSequence) = (st, c, r) := ⟨_, _, _, rfl⟩
    simp only [StoreForwardWorkSlot.next, ht, hr, Prod.mk.injEq] at hn
    obtain ⟨rfl, rfl, rfl⟩ := hn
    simp [previewWrite, ht, hr, StoreForwardPreview.movedFront]
  · obtain ⟨st, c, r, hr⟩ : ∃ st c r, b.forwardPlanner.next mem (front.asCursor UInt16)
        (nextNonZeroSequence32 b.requestSequence) = (st, c, r) := ⟨_, _, _, rfl⟩
    simp only [StoreForwardWorkSlot.next, ht, hr, Prod.mk.injEq] at hn
    obtain ⟨rfl, rfl, rfl⟩ := hn
    simp [previewWrite, ht, hr, StoreForwardPreview.movedFront]

/-- The two kinds of preview the `ForwardWrite` and `Poll` halves return. -/
theorem previewPoll_cases (action : StoreForwardAction) {i : UInt16} (hsome : polls.isNone = false)
    (hi : i.toNat < n.toNat) (hsched : action.scheduling.pollIndex = i) (hseq : action.sequence = 0)
    (hdown : action.downstream = {}) :
    ((b.previewPoll polls n action).status = .invalidPollRequest) ∨
    ((b.previewPoll polls n action).status = .ready ∧
      (b.previewPoll polls n action).action =
        { action with
          requiresCompletion := (polls.at i.toNat).requiresDispatch
          sequence := (b.previewPoll polls n action).action.sequence
          downstream := (b.previewPoll polls n action).action.downstream } ∧
      ((polls.at i.toNat).requiresDispatch = true →
        (b.previewPoll polls n action).action.sequence = nextNonZeroSequence32 b.requestSequence ∧
        (b.previewPoll polls n action).action.downstream =
          { (polls.at i.toNat).request with sequence := nextNonZeroSequence32 b.requestSequence } ∧
        isPollOperation (b.previewPoll polls n action).action.downstream.operation = true ∧
        validateDownstreamRequest (b.previewPoll polls n action).action.downstream = .valid) ∧
      ((polls.at i.toNat).requiresDispatch = false →
        (b.previewPoll polls n action).action.sequence = 0 ∧ (b.previewPoll polls n action).action.downstream = {})) := by
  have hok : ¬ (polls.isNone = true ∨ action.scheduling.pollIndex ≥ n) := by
    rw [hsched, ge_iff_le, UInt16.le_iff_toNat_le, hsome]
    simp
    omega
  unfold previewPoll
  rw [if_neg hok]
  simp only [hsched]
  cases hreq : (polls.at i.toNat).requiresDispatch with
  | false => exact Or.inr (by simp [hseq, hdown])
  | true =>
    simp only [Bool.not_true, Bool.false_eq_true, if_false]
    split
    · exact Or.inl rfl
    · rename_i hgood
      simp only [not_or, Bool.not_eq_true', Bool.not_eq_false, Decidable.not_not] at hgood
      exact Or.inr (by simp [hgood.1, hgood.2])

/-- **Every preview of a coherent facade** is refused for the caller's reasons, or proposes a
poll, or proposes the front's next fragment. -/
theorem previewAction_cases (h : b.Coherent) (mem : Memory) (session : SessionStateView) (now : UInt32)
    (polls : Storage PollCandidate) (n : UInt16) (ctx : Ptr) :
    ((b.previewAction mem session now polls n ctx).status ≠ .ready ∧
      (b.previewAction mem session now polls n ctx).status ≠ .planningFailed) ∨
    ((b.previewAction mem session now polls n ctx).status = .ready ∧ b.inFlight = false ∧
      ∃ i, PollProposal b session now polls n i (b.previewAction mem session now polls n ctx).action) ∨
    ((b.previewAction mem session now polls n ctx).status = .ready ∧ b.inFlight = false ∧
      ∃ front, WriteProposal mem b session now polls n ctx front (b.previewAction mem session now polls n ctx).action ∧
        (b.previewAction mem session now polls n ctx).movedFront front =
          front.advance (b.previewAction mem session now polls n ctx).action.write.quantity) := by
  unfold previewAction
  simp only [h.validStorage, h.front_eq]
  by_cases hfl : b.inFlight = true
  · exact Or.inl (by simp [hfl])
  have hfl' : b.inFlight = false := by simpa using hfl
  simp only [hfl', Bool.not_true, Bool.false_eq_true, if_false]
  by_cases hstale : (b.queue.head?.any fun s => !workCurrent s.workIdentity session) = true
  · exact Or.inl (by simp [hstale])
  simp only [hstale, Bool.false_eq_true, if_false]
  have hcur : ∀ s ∈ b.queue.head?, workCurrent s.workIdentity session = true := by
    intro s hs
    rw [Option.mem_def] at hs
    rw [hs] at hstale
    simpa using hstale
  obtain ⟨st, selection, hsel⟩ : ∃ st sel, b.pollPlanner.select now b.queue.head?.isSome polls n b.pollState = (st, sel) :=
    ⟨_, _, rfl⟩
  simp only [hsel]
  cases st with
  | invalidStorage => exact Or.inl (by simp)
  | noAction => exact Or.inl (by simp)
  | selected =>
    obtain ⟨hstore, hkind⟩ := PollPlanner.select_selected hsel
    rcases hkind with ⟨rfl, hready⟩ | ⟨i, rfl, hfirst⟩
    · right; right
      obtain ⟨front, hfront⟩ := Option.isSome_iff_exists.1 hready
      have hidle := outstanding_idle hfl'
      have hok := h.filed.slots front (List.mem_of_mem_head? hfront)
      have hrec := h.filed.front front hfront
      rw [hidle] at hrec
      obtain ⟨w, hn, htakes, _⟩ := StoreForwardWorkSlot.next_spec h.routes hok hrec.1 mem
        (nextNonZeroSequence32_ne_zero b.requestSequence)
      obtain ⟨h1, h2, h3⟩ := previewWrite_spec ctx
        { kind := (forwardSelection n).kind, proposalRevision := b.revision, scheduling := forwardSelection n, pollCount := n
          selectedAt := now } hok hn
      have hkind : ((forwardSelection n).kind = .poll) = False := by simp [PollSelection.fromCandidateSet]
      have hkind' : ((forwardSelection n).kind ≠ .forwardWrite) = False := by simp [PollSelection.fromCandidateSet]
      simp only [hfront, hkind, hkind', if_false]
      refine ⟨h1, trivial, front, ?_, ?_⟩
      · rw [h2]
        exact ⟨hfront, hcur front hfront, hready ▸ hsel, rfl, hn, htakes, rfl⟩
      · rw [h2]
        exact h3
    · have hkind : ((PollSelection.fromCandidateSet .poll i n).kind = .poll) = True := by
        simp [PollSelection.fromCandidateSet]
      have hn : n ≠ 0 := fun e => absurd hfirst.lt (by simp [e])
      simp only [hkind, if_true]
      rcases b.previewPoll_cases
          { kind := (PollSelection.fromCandidateSet .poll i n).kind, proposalRevision := b.revision
            scheduling := .fromCandidateSet .poll i n, pollCount := n, selectedAt := now }
          (hstore.resolve_left hn) hfirst.lt rfl rfl rfl with hbad | ⟨h1, h2, h3, h4⟩
      · exact Or.inl (by rw [hbad]; simp)
      · refine Or.inr (Or.inl ⟨h1, trivial, i, hcur, hsel, hfirst.lt, h2, ?_, ?_⟩)
        · intro hreq
          rw [h2] at hreq
          obtain ⟨e1, e2, e3, e4⟩ := h3 hreq
          exact ⟨e1, e2.trans (by rw [e1]), e3, e4⟩
        · intro hreq
          rw [h2] at hreq
          exact h4 hreq

/-! ## Admission -/

/-- `nextAction` with the action's own arguments proposes the action itself. -/
def Proposes (mem : Memory) (b : StoreForwardBridge) (session : SessionStateView) (polls : Storage PollCandidate)
    (n : UInt16) (a : StoreForwardAction) : Prop :=
  b.nextAction mem session a.selectedAt polls n a.downstream.consistencyContext = (.ready, a)

theorem proposes_iff : Proposes mem b session polls n a ↔
    (b.previewAction mem session a.selectedAt polls n a.downstream.consistencyContext).status = .ready ∧
    (b.previewAction mem session a.selectedAt polls n a.downstream.consistencyContext).action = a := by
  simp [Proposes, nextAction]

/-- An action that is not the current proposal is refused by the first guards and changes
nothing, on any facade. -/
theorem admitAction_refused (h : ¬ (b.inFlight = false ∧ Proposes mem b session polls n a)) :
    ((b.admitAction mem a session polls n).1 = .actionInFlight ∧ b.inFlight = true ∨
      (b.admitAction mem a session polls n).1 = .invalidAction ∧ a.kind = .none ∨
      (b.admitAction mem a session polls n).1 = .staleProposal) ∧
    (b.admitAction mem a session polls n).2 = b := by
  unfold admitAction
  split
  · rename_i hf; exact ⟨Or.inl ⟨rfl, hf⟩, rfl⟩
  rename_i hf
  split
  · rename_i hk; exact ⟨Or.inr (Or.inl ⟨rfl, hk⟩), rfl⟩
  split
  · exact ⟨Or.inr (Or.inr rfl), rfl⟩
  simp only
  split
  · exact ⟨Or.inr (Or.inr rfl), rfl⟩
  rename_i hpv
  simp only [not_or, Decidable.not_not, Bool.not_eq_true', Bool.not_eq_false, sameStoreForwardAction_iff] at hpv
  exact absurd ⟨by simpa using hf, proposes_iff.2 ⟨hpv.1, hpv.2.1.symm⟩⟩ h

/-- What every acceptance of a proposal `a` does to the poll state. -/
def commitProposal (b : StoreForwardBridge) (a : StoreForwardAction) : PollPlannerState :=
  (PollPlanner.commit a.scheduling a.pollCount a.selectedAt b.pollState).2

/-- The facade after a `ForwardWrite` was admitted. -/
def afterWrite (b : StoreForwardBridge) (front : StoreForwardWorkSlot) (a : StoreForwardAction) : StoreForwardBridge :=
  { b with
    pollState := b.commitProposal a
    completionLedger := (b.completionLedger.recordIssued a.write).2
    workQueue := b.workQueue.writeFront (front.advance a.write.quantity)
    inFlightWork := a.write.identity.work
    requestSequence := a.sequence
    inFlight := true
    inFlightAction := a
    revision := nextNonZeroSequence32 b.revision }

/-- The facade after a dispatched poll was admitted. -/
def afterPoll (b : StoreForwardBridge) (a : StoreForwardAction) : StoreForwardBridge :=
  { b with
    pollState := b.commitProposal a
    inFlightWork := {}
    requestSequence := a.sequence
    inFlight := true
    inFlightAction := a
    revision := nextNonZeroSequence32 b.revision }

/-- The facade after a poll was consumed without dispatch. -/
def afterSkip (b : StoreForwardBridge) (a : StoreForwardAction) : StoreForwardBridge :=
  { b with pollState := b.commitProposal a, revision := nextNonZeroSequence32 b.revision }

/-- Past the common guards `admitAction` is its three branches. -/
theorem admitAction_proposed (hf : b.inFlight = false) (hp : Proposes mem b session polls n a)
    (hkind : a.kind = .forwardWrite ∨ a.kind = .poll) (hrev : a.proposalRevision = b.revision)
    (hsched : a.kind = a.scheduling.kind) :
    b.admitAction mem a session polls n =
      if a.kind = .poll ∧ !a.requiresCompletion then
        if a.sequence ≠ 0 then (.fairnessRejected, b)
        else
          let (committed, pollState) := PollPlanner.commit a.scheduling a.pollCount a.selectedAt b.pollState
          let b := { b with pollState }
          if !committed then (.fairnessRejected, b) else (.consumed, b.advanceRevision)
      else if a.sequence = 0 ∨ a.sequence ≠ nextNonZeroSequence32 b.requestSequence then (.staleProposal, b)
      else
        match a.kind with
        | .forwardWrite => b.admitForwardWrite a
            (b.previewAction mem session a.selectedAt polls n a.downstream.consistencyContext)
        | .poll => b.admitPoll a
        | _ => (.invalidAction, b) := by
  obtain ⟨h1, h2⟩ := proposes_iff.1 hp
  have hkn : a.kind ≠ .none := by rcases hkind with h | h <;> rw [h] <;> decide
  unfold admitAction
  rw [if_neg (by simp [hf]), if_neg hkn, if_neg (by simp [hrev])]
  simp only
  exact if_neg (by simp [h1, h2, hsched])

theorem admitAction_skip (hf : b.inFlight = false) (hp : Proposes mem b session polls n a) {i : UInt16}
    (hpoll : PollProposal b session a.selectedAt polls n i a) (hreq : a.requiresCompletion = false) :
    b.admitAction mem a session polls n = (.consumed, b.afterSkip a) := by
  have hkind : a.kind = .poll := by rw [hpoll.shape]
  have hrev : a.proposalRevision = b.revision := by rw [hpoll.shape]
  have hsched : a.scheduling = .fromCandidateSet .poll i n := by rw [hpoll.shape]
  have hcount : a.pollCount = n := by rw [hpoll.shape]
  have hcommit := PollPlanner.commit_poll hpoll.lt a.selectedAt b.pollState
  rw [admitAction_proposed hf hp (Or.inr hkind) hrev (by rw [hkind, hsched]; rfl)]
  rw [if_pos ⟨hkind, by simp [hreq]⟩, if_neg (by simp [(hpoll.skipped hreq).1])]
  simp only [afterSkip, commitProposal, hsched, hcount, hcommit]
  rfl

theorem admitAction_poll (hf : b.inFlight = false) (hp : Proposes mem b session polls n a) {i : UInt16}
    (hpoll : PollProposal b session a.selectedAt polls n i a) (hreq : a.requiresCompletion = true) :
    b.admitAction mem a session polls n = (.admitted, b.afterPoll a) := by
  have hkind : a.kind = .poll := by rw [hpoll.shape]
  have hrev : a.proposalRevision = b.revision := by rw [hpoll.shape]
  have hsched : a.scheduling = .fromCandidateSet .poll i n := by rw [hpoll.shape]
  have hcount : a.pollCount = n := by rw [hpoll.shape]
  have hcommit := PollPlanner.commit_poll hpoll.lt a.selectedAt b.pollState
  obtain ⟨hseq, hdown, hop, hvalid⟩ := hpoll.dispatched hreq
  have hne : a.sequence ≠ 0 := hseq ▸ nextNonZeroSequence32_ne_zero _
  have hdseq : a.downstream.sequence = a.sequence := by rw [hdown]
  rw [admitAction_proposed hf hp (Or.inr hkind) hrev (by rw [hkind, hsched]; rfl)]
  rw [if_neg (by simp [hreq]), if_neg (by simp [hne, ← hseq])]
  simp only [hkind, admitPoll]
  rw [if_neg (by simp [hsched, hdseq, PollSelection.fromCandidateSet]), if_neg (by simp [hop, hvalid]),
    if_neg (by simp [hreq])]
  simp only [afterPoll, commitProposal, hsched, hcount, hcommit]
  rfl

/-- Admitting a proposed write: the ledger has room for the fragment. -/
theorem recordIssued_write (h : b.Coherent) (hf : b.inFlight = false) {now : UInt32} {ctx : Ptr}
    (hw : WriteProposal mem b session now polls n ctx front a) :
    (b.completionLedger.recordIssued a.write).1 = .recorded ∧ (b.completionLedger.recordIssued a.write).2.WF ∧
    (b.completionLedger.recordIssued a.write).2.lookup =
      b.records.file front.workIdentity (some (busyRecord a.write)) := by
  have hok := h.filed.slots front (List.mem_of_mem_head? hw.head)
  have hrec := h.filed.front front hw.head
  rw [outstanding_idle hf] at hrec
  have hid := hw.takes.identity
  have hwork : a.write.identity.work = front.workIdentity := by rw [hid]
  have hne : a.sequence ≠ 0 := hw.sequence ▸ nextNonZeroSequence32_ne_zero _
  have hlook : b.completionLedger.lookup a.write.identity.work = some front.idleRecord := hwork ▸ hrec.2
  have hvalid : a.write.identity.valid = true := by simp [RequestIdentity.valid, hid, hok.identity, hne]
  have hacc : isAccepted a.write.delivery = true := by
    rw [hw.takes.delivery]
    exact hok.accepted
  have haccepts : front.idleRecord.AcceptsIssue a.write :=
    ⟨rfl, rfl, hw.takes.delivery, by rw [hid]; rfl, fun e => absurd e (hok.index_ne_last hrec.1)⟩
  obtain ⟨h1, h2, h3⟩ := CompletionLedger.recordIssued_spec h.ledger hlook hvalid hacc haccepts
  refine ⟨h1, h2, ?_⟩
  funext w'
  rw [h3 w', hwork]
  have hbusy : CompletionLedger.issuedSlot front.idleRecord a.write = busyRecord a.write := by
    simp only [busyRecord, StoreForwardWorkSlot.idleRecord, hid, hw.takes.delivery]
  rw [hbusy]
  rfl

theorem admitAction_write (h : b.Coherent) (hf : b.inFlight = false) (hp : Proposes mem b session polls n a)
    (hw : WriteProposal mem b session a.selectedAt polls n a.downstream.consistencyContext front a)
    (hmoved : (b.previewAction mem session a.selectedAt polls n a.downstream.consistencyContext).movedFront front =
      front.advance a.write.quantity) :
    b.admitAction mem a session polls n = (.admitted, b.afterWrite front a) := by
  have hkind : a.kind = .forwardWrite := by rw [hw.shape]
  have hrev : a.proposalRevision = b.revision := by rw [hw.shape]
  have hsched : a.scheduling = forwardSelection n := by rw [hw.shape]
  have hcount : a.pollCount = n := by rw [hw.shape]
  have hcommit := PollPlanner.commit_forward n a.selectedAt b.pollState
  have hne : a.sequence ≠ 0 := hw.sequence ▸ nextNonZeroSequence32_ne_zero _
  obtain ⟨hissued, _, _⟩ := recordIssued_write h hf hw
  rw [admitAction_proposed hf hp (Or.inl hkind) hrev (by rw [hkind, hsched]; rfl)]
  rw [if_neg (by simp [hkind]), if_neg (by simp [hne, ← hw.sequence])]
  simp only [hkind, admitForwardWrite, h.front_eq, hw.head]
  rw [if_neg (by simp [hsched, PollSelection.fromCandidateSet])]
  simp only [(proposes_iff.1 hp).2, hissued, hsched, hcount, hcommit]
  simp only [StoreForwardPreview.movedFront] at hmoved
  simp only [Bool.not_true, Bool.false_eq_true, if_false, ne_eq, not_true_eq_false, hmoved, afterWrite, commitProposal,
    hsched, hcount]
  rfl

/-- **`admitAction` on a coherent facade**: refused with nothing changed, or one of three
acceptances. -/
theorem admitAction_cases (h : b.Coherent) (mem : Memory) (a : StoreForwardAction) (session : SessionStateView)
    (polls : Storage PollCandidate) (n : UInt16) :
    (¬ (b.inFlight = false ∧ Proposes mem b session polls n a) ∧
      (b.admitAction mem a session polls n).1 ≠ .admitted ∧ (b.admitAction mem a session polls n).1 ≠ .consumed ∧
      (b.admitAction mem a session polls n).2 = b) ∨
    (b.inFlight = false ∧ Proposes mem b session polls n a ∧
      ((∃ i, PollProposal b session a.selectedAt polls n i a ∧ a.requiresCompletion = false ∧
        b.admitAction mem a session polls n = (.consumed, b.afterSkip a)) ∨
      (∃ i, PollProposal b session a.selectedAt polls n i a ∧ a.requiresCompletion = true ∧
        b.admitAction mem a session polls n = (.admitted, b.afterPoll a)) ∨
      (∃ front, WriteProposal mem b session a.selectedAt polls n a.downstream.consistencyContext front a ∧
        b.admitAction mem a session polls n = (.admitted, b.afterWrite front a)))) := by
  by_cases hacc : b.inFlight = false ∧ Proposes mem b session polls n a
  · obtain ⟨hf, hp⟩ := hacc
    obtain ⟨h1, h2⟩ := proposes_iff.1 hp
    refine Or.inr ⟨hf, hp, ?_⟩
    rcases previewAction_cases h mem session a.selectedAt polls n a.downstream.consistencyContext with
      ⟨hbad, _⟩ | ⟨_, _, i, hpoll⟩ | ⟨_, _, front, hw, hmoved⟩
    · exact absurd h1 hbad
    · rw [h2] at hpoll
      cases hreq : a.requiresCompletion with
      | false => exact Or.inl ⟨i, hpoll, rfl, admitAction_skip hf hp hpoll hreq⟩
      | true => exact Or.inr (Or.inl ⟨i, hpoll, rfl, admitAction_poll hf hp hpoll hreq⟩)
    · rw [h2] at hw hmoved
      exact Or.inr (Or.inr ⟨front, hw, admitAction_write h hf hp hw hmoved⟩)
  · obtain ⟨hstatus, hstate⟩ := admitAction_refused hacc
    refine Or.inl ⟨hacc, ?_, ?_, hstate⟩ <;> rcases hstatus with ⟨e, _⟩ | ⟨e, _⟩ | e <;> rw [e] <;> decide

end StoreForwardBridge

end ModbusRTUBridge
