import ModbusRTUBridge.CompletionLedger
import ModbusRTUBridge.FixedStorage
import ModbusRTUBridge.PollPlanner
/-!
# The store-forward facade (`StoreForwardBridge.h`)

Every public call is a function from the facade's state to a result and the state after it,
in the order of the source: a branch that returns early returns the state as it is at that
point, with whatever the lines above have already written. The ledger the facade is given a
reference to is a field of the state (the facade is its only user).

| here | there |
| --- | --- |
| `StoreForwardWorkSlot`            | `StoreForwardBridge.h:53` |
| `sameStoreForwardAction`          | `:208` |
| `admitWork`                       | `:345`, `:384` (one template over the two overloads) |
| `nextAction`, `previewAction`     | `:424`, `:686` |
| `admitAction`, `complete`         | `:447`, `:557` |
| `discardOneStaleWork`, `abandonFront`, `reset` | `:635`, `:656`, `:672` |
-/

namespace ModbusRTUBridge

/-- `downstreamRequestFor`: the `const_cast` only changes the pointer's type. -/
def downstreamRequestFor (planned : PlannedWriteRequest) (consistencyContext : Ptr := .null) : DownstreamRequest where
  sequence := planned.identity.requestSequence
  operation := planned.operation
  endpointId := planned.endpointId
  startAddress := planned.downstreamStart
  quantity := planned.quantity
  coilBuffer := planned.coilValues
  registerBuffer := planned.holdingValues
  coilValue := planned.coilValue
  registerValue := planned.holdingValue
  consistencyContext := consistencyContext

def isPollOperation : DownstreamOperation → Bool
  | .readCoils | .readDiscreteInputs | .readHoldingRegisters | .readInputRegisters => true
  | _ => false

/-! ## Work slots -/

/-- One queued work with its forward cursor flattened and its element type erased. -/
structure StoreForwardWorkSlot where
  table : RegisterTable := .coils
  workIdentity : WorkIdentity := {}
  upstreamStart : UInt16 := 0
  quantity : UInt16 := 0
  workDelivery : IngressDelivery := .rejected
  snapshot : Ptr := .null
  nextAddress : UInt16 := 0
  remaining : UInt16 := 0
  sourceOffset : UInt16 := 0
  fragmentIndex : UInt16 := 0
  active : Bool := false
  userContext : Ptr := .null
deriving DecidableEq, Repr

namespace StoreForwardWorkSlot

instance : Inhabited StoreForwardWorkSlot := ⟨{}⟩

/-- The two converting constructors. -/
def ofWork {Value : Type} [WorkTraits Value] (work : IngressWorkView Value) (cursor : ForwardCursor Value)
    (context : Ptr) : StoreForwardWorkSlot where
  table := WorkTraits.table Value
  workIdentity := work.identity
  upstreamStart := work.start
  quantity := work.count
  workDelivery := work.delivery
  snapshot := work.snapshot.values
  nextAddress := cursor.nextAddress
  remaining := cursor.remaining
  sourceOffset := cursor.sourceOffset
  fragmentIndex := cursor.fragmentIndex
  active := cursor.active
  userContext := context

/-- `asCoilCursor`, `asHoldingCursor`. -/
def asCursor (Value : Type) (s : StoreForwardWorkSlot) : ForwardCursor Value where
  work := ⟨s.workIdentity, s.upstreamStart, s.quantity, s.workDelivery, ⟨s.snapshot, s.quantity⟩⟩
  nextAddress := s.nextAddress
  remaining := s.remaining
  sourceOffset := s.sourceOffset
  fragmentIndex := s.fragmentIndex
  active := s.active

def updateFrom {Value : Type} (s : StoreForwardWorkSlot) (cursor : ForwardCursor Value) : StoreForwardWorkSlot :=
  { s with
    nextAddress := cursor.nextAddress
    remaining := cursor.remaining
    sourceOffset := cursor.sourceOffset
    fragmentIndex := cursor.fragmentIndex
    active := cursor.active }

end StoreForwardWorkSlot

/-! ## Actions -/

structure StoreForwardAction where
  kind : ScheduledActionKind := .none
  proposalRevision : UInt32 := 0
  sequence : UInt32 := 0
  write : PlannedWriteRequest := {}
  downstream : DownstreamRequest := {}
  scheduling : PollSelection := {}
  pollCount : UInt16 := 0
  selectedAt : UInt32 := 0
  requiresCompletion : Bool := false
  workContext : Ptr := .null
deriving DecidableEq, Repr

instance : Inhabited StoreForwardAction := ⟨{}⟩

def sameDownstreamRequest (lhs rhs : DownstreamRequest) : Bool :=
  lhs.sequence == rhs.sequence && lhs.operation == rhs.operation && lhs.endpointId == rhs.endpointId &&
    lhs.startAddress == rhs.startAddress && lhs.quantity == rhs.quantity && lhs.coilBuffer == rhs.coilBuffer &&
    lhs.registerBuffer == rhs.registerBuffer && lhs.coilValue == rhs.coilValue &&
    lhs.registerValue == rhs.registerValue && lhs.consistencyContext == rhs.consistencyContext

@[simp] theorem sameDownstreamRequest_iff {lhs rhs : DownstreamRequest} :
    sameDownstreamRequest lhs rhs = true ↔ lhs = rhs := by
  cases lhs; cases rhs; simp [sameDownstreamRequest, and_assoc]

def sameStoreForwardAction (lhs rhs : StoreForwardAction) : Bool :=
  lhs.kind == rhs.kind && lhs.proposalRevision == rhs.proposalRevision && lhs.sequence == rhs.sequence &&
    samePlannedWriteRequest lhs.write rhs.write && sameDownstreamRequest lhs.downstream rhs.downstream &&
    lhs.scheduling.kind == rhs.scheduling.kind && lhs.scheduling.pollIndex == rhs.scheduling.pollIndex &&
    lhs.scheduling.originatingPollCount == rhs.scheduling.originatingPollCount &&
    lhs.scheduling.pollCountBound == rhs.scheduling.pollCountBound &&
    lhs.pollCount == rhs.pollCount && lhs.selectedAt == rhs.selectedAt &&
    lhs.requiresCompletion == rhs.requiresCompletion && lhs.workContext == rhs.workContext

/-- The comparison of two actions leaves no field out. -/
@[simp] theorem sameStoreForwardAction_iff {lhs rhs : StoreForwardAction} :
    sameStoreForwardAction lhs rhs = true ↔ lhs = rhs := by
  obtain ⟨_, _, _, _, _, ⟨_, _, _, _⟩, _, _, _, _⟩ := lhs
  obtain ⟨_, _, _, _, _, ⟨_, _, _, _⟩, _, _, _, _⟩ := rhs
  simp [sameStoreForwardAction, and_assoc]

/-! ## Results -/

inductive StoreForwardAdmitStatus where
  | admitted | invalidStorage | queueFull | planRejected | ledgerRejected
deriving DecidableEq, Repr

structure StoreForwardAdmission where
  status : StoreForwardAdmitStatus := .invalidStorage
  planStatus : ForwardPlanStatus := .invalidWork
  ledgerStatus : LedgerReserveStatus := .invalidWork
deriving DecidableEq, Repr

inductive StoreForwardNextStatus where
  | ready | noAction | actionInFlight | invalidStorage | invalidPollStorage | invalidPollRequest | staleWork
  | planningFailed
deriving DecidableEq, Repr

inductive StoreForwardActionAdmitStatus where
  | admitted | consumed | actionInFlight | invalidAction | staleProposal | ledgerRejected | fairnessRejected
deriving DecidableEq, Repr

inductive StoreForwardCompleteStatus where
  | completed | noActionInFlight | actionMismatch | invalidOutcome | ledgerRejected | staleSession
deriving DecidableEq, Repr

structure StoreForwardCompletion where
  status : StoreForwardCompleteStatus := .noActionInFlight
  kind : ScheduledActionKind := .none
  outcome : DownstreamOutcome := .sendUncertain
  decision : CompletionDecision := {}
  work : WorkCompletionSummary := {}
  workRetired : Bool := false
  workContext : Ptr := .null
deriving DecidableEq, Repr

structure StoreForwardRetirement where
  work : WorkIdentity := {}
  table : RegisterTable := .coils
  userContext : Ptr := .null
deriving DecidableEq, Repr

inductive StoreForwardRetireStatus where
  | retired | empty | actionInFlight | workStillCurrent
deriving DecidableEq, Repr

/-- What `previewAction` writes: its status, the action, and the two cursors of which at most
one has advanced. -/
structure StoreForwardPreview where
  status : StoreForwardNextStatus
  action : StoreForwardAction := {}
  nextCoilCursor : CoilForwardCursor := {}
  nextHoldingCursor : HoldingForwardCursor := {}

structure StoreForwardBridge where
  forwardPlanner : ForwardPlanner
  workQueue : FixedRingQueue StoreForwardWorkSlot
  completionLedger : CompletionLedger
  pollPlanner : PollPlanner
  pollState : PollPlannerState := {}
  requestSequence : UInt32 := 0
  revision : UInt32 := 1
  inFlight : Bool := false
  inFlightAction : StoreForwardAction := {}
  inFlightWork : WorkIdentity := {}

namespace StoreForwardBridge

/-- The constructor. -/
def create (forwardPlanner : ForwardPlanner) (workStorage : Storage StoreForwardWorkSlot) (workCapacity : UInt16)
    (completionLedger : CompletionLedger) (pollPlanner : PollPlanner) : StoreForwardBridge where
  forwardPlanner := forwardPlanner
  workQueue := { storage := workStorage, capacity := workCapacity }
  completionLedger := completionLedger
  pollPlanner := pollPlanner

def validStorage (b : StoreForwardBridge) : Bool := b.workQueue.validStorage && b.completionLedger.validStorage

def queuedWork (b : StoreForwardBridge) : UInt16 := b.workQueue.size

/-! ## Private helpers -/

def advanceRevision (b : StoreForwardBridge) : StoreForwardBridge :=
  { b with revision := nextNonZeroSequence32 b.revision }

def clearInFlight (b : StoreForwardBridge) : StoreForwardBridge :=
  { b with inFlight := false, inFlightAction := {}, inFlightWork := {} }

def popFrontIf (b : StoreForwardBridge) (work : WorkIdentity) : StoreForwardBridge :=
  match b.workQueue.front with
  | some front =>
    if sameWorkIdentity front.workIdentity work then { b with workQueue := b.workQueue.popFront.2 } else b
  | none => b

def abandon (b : StoreForwardBridge) (work : WorkIdentity) : StoreForwardBridge :=
  { b with completionLedger := (b.completionLedger.abandon work).2 }

def retireFront (b : StoreForwardBridge) : StoreForwardRetirement × StoreForwardBridge :=
  match b.workQueue.front with
  | none => ({}, b)
  | some front =>
    let b := b.abandon front.workIdentity
    (⟨front.workIdentity, front.table, front.userContext⟩,
     { b with workQueue := b.workQueue.popFront.2 }.advanceRevision)

/-! ## Admission -/

def admitWork {Value : Type} [WorkTraits Value] (b : StoreForwardBridge) (work : IngressWorkView Value)
    (session : SessionStateView) (userContext : Ptr) : StoreForwardAdmission × StoreForwardBridge :=
  if !b.validStorage then ({}, b)
  else if b.workQueue.full then ({ status := .queueFull }, b)
  else
    let (planStatus, cursor) := b.forwardPlanner.beginIn work session
    if planStatus ≠ .ready then ({ status := .planRejected, planStatus }, b)
    else
      let (ledgerStatus, completionLedger) := b.completionLedger.reserve work.identity work.delivery
      let b := { b with completionLedger }
      if ledgerStatus ≠ .reserved then ({ status := .ledgerRejected, planStatus, ledgerStatus }, b)
      else
        let (pushed, workQueue) := b.workQueue.tryPush (.ofWork work cursor userContext)
        if !pushed then
          -- only corrupt storage gets here: the queue was not full above
          ({ status := .queueFull, planStatus, ledgerStatus }, b.abandon work.identity)
        else ({ status := .admitted, planStatus, ledgerStatus }, { b with workQueue }.advanceRevision)

/-! ## Preview -/

/-- The `ForwardWrite` half of `previewAction` (`StoreForwardBridge.h:752-775`); `action` is
what the common part has filled in. -/
def previewWrite (mem : Memory) (b : StoreForwardBridge) (front : StoreForwardWorkSlot) (action : StoreForwardAction)
    (writeConsistencyContext : Ptr) : StoreForwardPreview :=
  let proposedSequence := nextNonZeroSequence32 b.requestSequence
  let action := { action with sequence := proposedSequence, requiresCompletion := true, workContext := front.userContext }
  match front.table with
  | .coils =>
    let (status, cursor, write) := b.forwardPlanner.next mem (front.asCursor Bool) proposedSequence
    if status ≠ .planned then { status := .planningFailed, nextCoilCursor := cursor }
    else
      { status := .ready
        action := { action with write, downstream := downstreamRequestFor write writeConsistencyContext }
        nextCoilCursor := cursor }
  | .holdingRegisters =>
    let (status, cursor, write) := b.forwardPlanner.next mem (front.asCursor UInt16) proposedSequence
    if status ≠ .planned then { status := .planningFailed, nextHoldingCursor := cursor }
    else
      { status := .ready
        action := { action with write, downstream := downstreamRequestFor write writeConsistencyContext }
        nextHoldingCursor := cursor }
  | _ => { status := .planningFailed }

/-- The `Poll` half of `previewAction` (`StoreForwardBridge.h:728-750`). -/
def previewPoll (b : StoreForwardBridge) (polls : Storage PollCandidate) (pollCount : UInt16)
    (action : StoreForwardAction) : StoreForwardPreview :=
  if polls.isNone ∨ action.scheduling.pollIndex ≥ pollCount then { status := .invalidPollStorage }
  else
    let candidate := polls.at action.scheduling.pollIndex.toNat
    let action := { action with requiresCompletion := candidate.requiresDispatch }
    if !action.requiresCompletion then { status := .ready, action }
    else
      let sequence := nextNonZeroSequence32 b.requestSequence
      let downstream := { candidate.request with sequence }
      if !isPollOperation downstream.operation ∨ validateDownstreamRequest downstream ≠ .valid then
        { status := .invalidPollRequest }
      else { status := .ready, action := { action with sequence, downstream } }

def previewAction (mem : Memory) (b : StoreForwardBridge) (session : SessionStateView) (now : UInt32)
    (polls : Storage PollCandidate) (pollCount : UInt16) (writeConsistencyContext : Ptr) : StoreForwardPreview :=
  if !b.validStorage then { status := .invalidStorage }
  else if b.inFlight then { status := .actionInFlight }
  else
    let front := b.workQueue.front
    if front.any fun s => !workCurrent s.workIdentity session then { status := .staleWork }
    else
      match b.pollPlanner.select now front.isSome polls pollCount b.pollState with
      | (.invalidStorage, _) => { status := .invalidPollStorage }
      | (.noAction, _) => { status := .noAction }
      | (.selected, selection) =>
        let action : StoreForwardAction :=
          { kind := selection.kind, proposalRevision := b.revision, scheduling := selection, pollCount
            selectedAt := now }
        if selection.kind = .poll then b.previewPoll polls pollCount action
        else
          match front with
          | some front =>
            if selection.kind ≠ .forwardWrite then { status := .planningFailed }
            else b.previewWrite mem front action writeConsistencyContext
          | none => { status := .planningFailed }

def nextAction (mem : Memory) (b : StoreForwardBridge) (session : SessionStateView) (now : UInt32)
    (polls : Storage PollCandidate) (pollCount : UInt16) (writeConsistencyContext : Ptr) :
    StoreForwardNextStatus × StoreForwardAction :=
  let preview := b.previewAction mem session now polls pollCount writeConsistencyContext
  (preview.status, preview.action)

/-! ## Admission of an action -/

/-- The tail of `admitAction` (`StoreForwardBridge.h:548-552`). -/
def retain (b : StoreForwardBridge) (action : StoreForwardAction) : StoreForwardBridge :=
  { b with requestSequence := action.sequence, inFlight := true, inFlightAction := action }.advanceRevision

/-- The `ForwardWrite` branch of `admitAction` (`StoreForwardBridge.h:495-525`). -/
def admitForwardWrite (b : StoreForwardBridge) (action : StoreForwardAction) (preview : StoreForwardPreview) :
    StoreForwardActionAdmitStatus × StoreForwardBridge :=
  if action.scheduling.kind ≠ .forwardWrite then (.invalidAction, b)
  else
    match b.workQueue.front with
    | none => (.staleProposal, b)
    | some front =>
      let previousPollState := b.pollState
      let (committed, pollState) := PollPlanner.commit action.scheduling action.pollCount action.selectedAt b.pollState
      let b := { b with pollState }
      if !committed then (.fairnessRejected, b)
      else
        let (issued, completionLedger) := b.completionLedger.recordIssued preview.action.write
        let b := { b with completionLedger }
        if issued ≠ .recorded then (.ledgerRejected, { b with pollState := previousPollState })
        else
          let front := if front.table = .coils then front.updateFrom preview.nextCoilCursor
            else front.updateFrom preview.nextHoldingCursor
          let b := { b with
            workQueue := b.workQueue.writeFront front
            inFlightWork := preview.action.write.identity.work }
          (.admitted, b.retain action)

/-- The dispatched `Poll` branch of `admitAction` (`StoreForwardBridge.h:526-543`). -/
def admitPoll (b : StoreForwardBridge) (action : StoreForwardAction) :
    StoreForwardActionAdmitStatus × StoreForwardBridge :=
  if action.scheduling.kind ≠ .poll ∨ action.downstream.sequence ≠ action.sequence then (.invalidAction, b)
  else if !isPollOperation action.downstream.operation ∨ validateDownstreamRequest action.downstream ≠ .valid then
    (.invalidAction, b)
  else if !action.requiresCompletion then (.fairnessRejected, b)
  else
    let (committed, pollState) := PollPlanner.commit action.scheduling action.pollCount action.selectedAt b.pollState
    let b := { b with pollState }
    if !committed then (.fairnessRejected, b)
    else (.admitted, { b with inFlightWork := {} }.retain action)

def admitAction (mem : Memory) (b : StoreForwardBridge) (action : StoreForwardAction) (session : SessionStateView)
    (polls : Storage PollCandidate) (pollCount : UInt16) : StoreForwardActionAdmitStatus × StoreForwardBridge :=
  if b.inFlight then (.actionInFlight, b)
  else if action.kind = .none then (.invalidAction, b)
  else if action.proposalRevision ≠ b.revision then (.staleProposal, b)
  else
    let preview := b.previewAction mem session action.selectedAt polls pollCount action.downstream.consistencyContext
    if preview.status ≠ .ready ∨ !sameStoreForwardAction action preview.action ∨
        action.kind ≠ action.scheduling.kind then
      (.staleProposal, b)
    else if action.kind = .poll ∧ !action.requiresCompletion then
      if action.sequence ≠ 0 then (.fairnessRejected, b)
      else
        let (committed, pollState) :=
          PollPlanner.commit action.scheduling action.pollCount action.selectedAt b.pollState
        let b := { b with pollState }
        if !committed then (.fairnessRejected, b) else (.consumed, b.advanceRevision)
    else if action.sequence = 0 ∨ action.sequence ≠ nextNonZeroSequence32 b.requestSequence then (.staleProposal, b)
    else
      match action.kind with
      | .forwardWrite => b.admitForwardWrite action preview
      | .poll => b.admitPoll action
      | _ => (.invalidAction, b)

/-! ## Completion -/

/-- The part of `complete` after the ledger has resolved the request
(`StoreForwardBridge.h:612-629`). -/
def settle (b : StoreForwardBridge) (result : StoreForwardCompletion) (work : WorkIdentity)
    (outcome : DownstreamOutcome) : StoreForwardCompletion × StoreForwardBridge :=
  let b := b.clearInFlight
  let (b, summary) :=
    if outcome ≠ .applied then
      let b := { b with completionLedger := (b.completionLedger.closePlanningAfterFailure work).2 }
      (b, (b.completionLedger.summary work).2)
    else (b, result.work)
  let result := { result with work := summary }
  let (b, result) :=
    if summary.drained then
      let b := { b with completionLedger := (b.completionLedger.release work).2 }
      (b.popFrontIf work, { result with workRetired := true })
    else (b, result)
  ({ result with status := .completed }, b.advanceRevision)

/-- The `ForwardWrite` part of `complete` (`StoreForwardBridge.h:582-629`). -/
def completeWrite (b : StoreForwardBridge) (result : StoreForwardCompletion) (admittedAction : StoreForwardAction)
    (outcome : DownstreamOutcome) (session : SessionStateView) : StoreForwardCompletion × StoreForwardBridge :=
  if b.inFlightAction.kind ≠ .forwardWrite ∨
      !sameWorkIdentity admittedAction.write.identity.work b.inFlightWork then
    ({ result with status := .actionMismatch }, b)
  else
    let (resolution, completionLedger) := b.completionLedger.resolve admittedAction.write
      ⟨admittedAction.write.identity, outcome⟩ session
    let b := { b with completionLedger }
    let result := { result with decision := resolution.decision, work := resolution.summary }
    if resolution.status ≠ .resolved then
      if resolution.status = .completionRejected ∧ resolution.decision.status = .staleSession then
        -- an old generation can never become current again
        let b := b.abandon b.inFlightWork
        let b := b.popFrontIf b.inFlightWork
        ({ result with status := .staleSession, workRetired := true }, b.clearInFlight.advanceRevision)
      else ({ result with status := .ledgerRejected }, b)
    else b.settle result admittedAction.write.identity.work outcome

def complete (b : StoreForwardBridge) (admittedAction : StoreForwardAction) (outcome : DownstreamOutcome)
    (session : SessionStateView) : StoreForwardCompletion × StoreForwardBridge :=
  let result : StoreForwardCompletion :=
    { kind := if b.inFlight then b.inFlightAction.kind else admittedAction.kind
      outcome
      workContext := if b.inFlight then b.inFlightAction.workContext else .null }
  if !b.inFlight then (result, b)
  else if !sameStoreForwardAction admittedAction b.inFlightAction then
    ({ result with status := .actionMismatch }, b)
  else if !isKnownDownstreamOutcome outcome then ({ result with status := .invalidOutcome }, b)
  else if b.inFlightAction.kind = .poll then
    ({ result with status := .completed }, b.clearInFlight.advanceRevision)
  else b.completeWrite result admittedAction outcome session

/-! ## Retirement -/

def discardOneStaleWork (b : StoreForwardBridge) (session : SessionStateView) :
    StoreForwardRetireStatus × StoreForwardRetirement × StoreForwardBridge :=
  if b.inFlight then (.actionInFlight, {}, b)
  else
    match b.workQueue.front with
    | none => (.empty, {}, b)
    | some front =>
      if workCurrent front.workIdentity session then (.workStillCurrent, {}, b) else (.retired, b.retireFront)

def abandonFront (b : StoreForwardBridge) : StoreForwardRetireStatus × StoreForwardRetirement × StoreForwardBridge :=
  if b.inFlight then (.actionInFlight, {}, b)
  else
    match b.workQueue.front with
    | none => (.empty, {}, b)
    | some _ => (.retired, b.retireFront)

/-- The `while(front() != nullptr)` loop of `reset`: each turn pops one work. -/
def drainQueue : Nat → StoreForwardBridge → StoreForwardBridge
  | 0, b => b
  | fuel + 1, b =>
    match b.workQueue.front with
    | none => b
    | some front =>
      let b := b.abandon front.workIdentity
      drainQueue fuel { b with workQueue := b.workQueue.popFront.2 }

def reset (b : StoreForwardBridge) : Bool × StoreForwardBridge :=
  if b.inFlight then (false, b)
  else (true, { drainQueue b.workQueue.size.toNat b with pollState := {} }.advanceRevision)

end StoreForwardBridge

end ModbusRTUBridge
