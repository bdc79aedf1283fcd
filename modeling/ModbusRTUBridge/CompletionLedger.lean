import ModbusRTUBridge.CompletionTransition
/-!
# The completion ledger (`CompletionLedger.h`)

A bounded linear table of caller-owned slots, one per admitted work, each holding at most one
outstanding request.
-/

namespace ModbusRTUBridge

inductive WorkCompletionOutcome where
  | pending | applied | definitelyNotSent | uncertainSend | terminalFailure
deriving DecidableEq, Repr, Inhabited

def workOutcomeFor : DownstreamOutcome → WorkCompletionOutcome
  | .applied => .applied
  | .definitelyNotSent => .definitelyNotSent
  | .sendUncertain => .uncertainSend
  | .failedAfterSend | .unknown _ => .terminalFailure

theorem workOutcomeFor_applied {outcome : DownstreamOutcome} : workOutcomeFor outcome = .applied ↔ outcome = .applied := by
  cases outcome <;> simp [workOutcomeFor]

/-- The strongest loss of certainty wins (`CompletionLedger.h:46`). -/
def combineWorkOutcomes (current : WorkCompletionOutcome) (observed : DownstreamOutcome) : WorkCompletionOutcome :=
  let next := workOutcomeFor observed
  if current = .pending ∨ current = .applied then next
  else if next = .terminalFailure ∨ current = .terminalFailure then .terminalFailure
  else if next = .uncertainSend ∨ current = .uncertainSend then .uncertainSend
  else .definitelyNotSent

structure WorkCompletionSummary where
  work : WorkIdentity := {}
  outcome : WorkCompletionOutcome := .pending
  outstandingRequests : UInt16 := 0
  settled : Bool := false
  drained : Bool := false
deriving DecidableEq, Repr, Inhabited

structure CompletionLedgerSlot where
  aggregate : CompletionAggregate := {}
  issuedRequest : PlannedWriteRequest := {}
  observedOutcome : WorkCompletionOutcome := .pending
  nextIssuedFragment : UInt16 := 0
  outstandingRequests : UInt16 := 0
  occupied : Bool := false
  planningClosed : Bool := false
deriving DecidableEq, Repr

instance : Inhabited CompletionLedgerSlot := ⟨{}⟩

inductive LedgerReserveStatus where
  | reserved | invalidStorage | invalidWork | duplicateWork | full
deriving DecidableEq, Repr

inductive LedgerIssueStatus where
  | recorded | workNotFound | invalidRequest | outOfOrder | planningClosed | outstandingRequestExists
  | fragmentIndexOverflow
deriving DecidableEq, Repr

inductive LedgerResolveStatus where
  | resolved | workNotFound | invalidOutcome | noOutstandingRequest | requestMismatch | completionRejected
deriving DecidableEq, Repr

inductive LedgerReleaseStatus where
  | released | workNotFound | stillActive
deriving DecidableEq, Repr

structure LedgerResolution where
  status : LedgerResolveStatus := .workNotFound
  decision : CompletionDecision := {}
  summary : WorkCompletionSummary := {}
deriving DecidableEq, Repr

structure CompletionLedger where
  slots : Storage CompletionLedgerSlot := none
  capacity : UInt16 := 0
  size : UInt16 := 0

namespace CompletionLedger

/-- `slots_[index]`. -/
def slot (l : CompletionLedger) (i : Nat) : CompletionLedgerSlot := l.slots.at i

/-- `slots_[index] = slot`. -/
def setSlot (l : CompletionLedger) (i : Nat) (s : CompletionLedgerSlot) : CompletionLedger :=
  { l with slots := l.slots.set i s }

def validStorage (l : CompletionLedger) : Bool := l.capacity == 0 || !l.slots.isNone

/-- The first index in `[0, capacity)` whose slot passes the test. -/
def firstIndex (l : CompletionLedger) (test : CompletionLedgerSlot → Bool) : Option Nat :=
  (List.range l.capacity.toNat).find? fun i => test (l.slot i)

def firstFree (l : CompletionLedger) : Option Nat :=
  if l.slots.isNone then none else l.firstIndex fun s => !s.occupied

def find (l : CompletionLedger) (work : WorkIdentity) : Option Nat :=
  if l.slots.isNone ∨ !work.valid then none
  else l.firstIndex fun s => s.occupied && sameWorkIdentity s.aggregate.work work

/-- `summarize` (`CompletionLedger.h:395`). -/
def summarize (s : CompletionLedgerSlot) : WorkCompletionSummary :=
  let drained := s.planningClosed && s.outstandingRequests == 0
  let failed := s.observedOutcome != .pending && s.observedOutcome != .applied
  let settled := failed || drained
  { work := s.aggregate.work
    outcome := if settled then s.observedOutcome else .pending
    outstandingRequests := s.outstandingRequests
    settled
    drained }

def releaseSlot (l : CompletionLedger) (i : Nat) : CompletionLedger :=
  { l.setSlot i {} with size := l.size - 1 }

def clear (l : CompletionLedger) : CompletionLedger :=
  { l with size := 0, slots := l.slots.map fun f j => if j < l.capacity.toNat then {} else f j }

/-- `CompletionLedger(slots, capacity)`. -/
def create (slots : Storage CompletionLedgerSlot) (capacity : UInt16) : CompletionLedger :=
  clear { slots, capacity }

/-- What `reserve` writes into the slot it found. -/
def reservedSlot (work : WorkIdentity) (delivery : IngressDelivery) : CompletionLedgerSlot :=
  { aggregate := { work, delivery }, occupied := true }

def reserve (l : CompletionLedger) (work : WorkIdentity) (delivery : IngressDelivery) :
    LedgerReserveStatus × CompletionLedger :=
  if !l.validStorage then (.invalidStorage, l)
  else if !work.valid ∨ !isAccepted delivery then (.invalidWork, l)
  else if (l.find work).isSome then (.duplicateWork, l)
  else
    match l.firstFree with
    | none => (.full, l)
    | some i => (.reserved, { l.setSlot i (reservedSlot work delivery) with size := l.size + 1 })

/-- The slot after `recordIssued` accepted the request. -/
def issuedSlot (s : CompletionLedgerSlot) (request : PlannedWriteRequest) : CompletionLedgerSlot :=
  { s with
    issuedRequest := request
    outstandingRequests := 1
    planningClosed := if request.finalFragment then true else s.planningClosed
    nextIssuedFragment := if request.finalFragment then s.nextIssuedFragment else s.nextIssuedFragment + 1 }

def recordIssued (l : CompletionLedger) (request : PlannedWriteRequest) : LedgerIssueStatus × CompletionLedger :=
  if !request.identity.valid ∨ !isAccepted request.delivery then (.invalidRequest, l)
  else
    match l.find request.identity.work with
    | none => (.workNotFound, l)
    | some i =>
      let s := l.slot i
      if s.planningClosed then (.planningClosed, l)
      else if s.outstandingRequests ≠ 0 then (.outstandingRequestExists, l)
      else if request.delivery ≠ s.aggregate.delivery ∨ request.identity.fragmentIndex ≠ s.nextIssuedFragment then
        (.outOfOrder, l)
      else if s.nextIssuedFragment = 0xFFFF ∧ !request.finalFragment then (.fragmentIndexOverflow, l)
      else (.recorded, l.setSlot i (issuedSlot s request))

def closePlanningAfterFailure (l : CompletionLedger) (work : WorkIdentity) : Bool × CompletionLedger :=
  match l.find work with
  | none => (false, l)
  | some i =>
    let s := l.slot i
    if s.observedOutcome = .pending ∨ s.observedOutcome = .applied then (false, l)
    else (true, l.setSlot i { s with planningClosed := true })

/-- The slot after `resolve` accepted a current completion. -/
def resolvedSlot (s : CompletionLedgerSlot) (aggregate : CompletionAggregate) (outcome : DownstreamOutcome) :
    CompletionLedgerSlot :=
  { s with
    aggregate
    observedOutcome := combineWorkOutcomes s.observedOutcome outcome
    outstandingRequests := 0
    issuedRequest := {} }

def resolve (l : CompletionLedger) (expected : PlannedWriteRequest) (observed : CompletionRecord)
    (session : SessionStateView) : LedgerResolution × CompletionLedger :=
  match l.find expected.identity.work with
  | none => ({ status := .workNotFound }, l)
  | some i =>
    let s := l.slot i
    if !isKnownDownstreamOutcome observed.outcome then
      ({ status := .invalidOutcome, summary := summarize s }, l)
    else if s.outstandingRequests = 0 then
      ({ status := .noOutstandingRequest, summary := summarize s }, l)
    else if !samePlannedWriteRequest s.issuedRequest expected then
      ({ status := .requestMismatch, summary := summarize s }, l)
    else
      -- the aggregate is updated in place, whatever the decision
      let (decision, aggregate) := resolveCompletion s.issuedRequest observed session s.aggregate
      let l := l.setSlot i { s with aggregate }
      if !decision.current then
        ({ status := .completionRejected, decision, summary := summarize { s with aggregate } }, l)
      else
        let resolved := resolvedSlot s aggregate observed.outcome
        ({ status := .resolved, decision, summary := summarize resolved }, l.setSlot i resolved)

def summary (l : CompletionLedger) (work : WorkIdentity) : Bool × WorkCompletionSummary :=
  match l.find work with
  | none => (false, {})
  | some i => (true, summarize (l.slot i))

def release (l : CompletionLedger) (work : WorkIdentity) : LedgerReleaseStatus × CompletionLedger :=
  match l.find work with
  | none => (.workNotFound, l)
  | some i => if !(summarize (l.slot i)).drained then (.stillActive, l) else (.released, l.releaseSlot i)

def abandon (l : CompletionLedger) (work : WorkIdentity) : Bool × CompletionLedger :=
  match l.find work with
  | none => (false, l)
  | some i => (true, l.releaseSlot i)

/-- The sweep both bulk helpers make over the slots; the counter is `removed`. -/
def sweep (l : CompletionLedger) (test : CompletionLedgerSlot → Bool) : UInt16 × CompletionLedger :=
  (List.range l.capacity.toNat).foldl
    (fun (removed, l) i => if (l.slot i).occupied && test (l.slot i) then (removed + 1, l.releaseSlot i) else (removed, l))
    (0, l)

def abandonGeneration (l : CompletionLedger) (generation : UInt16) : UInt16 × CompletionLedger :=
  if l.slots.isNone ∨ generation = 0 then (0, l)
  else l.sweep fun s => s.aggregate.work.sessionGeneration == generation

def abandonNotCurrent (l : CompletionLedger) (session : SessionStateView) : UInt16 × CompletionLedger :=
  if l.slots.isNone then (0, l) else l.sweep fun s => !workCurrent s.aggregate.work session

end CompletionLedger

end ModbusRTUBridge
