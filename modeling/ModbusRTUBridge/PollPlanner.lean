import ModbusRTUBridge.DownstreamExecutor
/-!
# Poll and forward fairness (`PollPlanner.h`)

`select` only reads; `commit` publishes the cursor, the burst counter and the poll time.

| here | there |
| --- | --- |
| `PollPlanner.beginPollScan`, `nextIndex`, `nextDue` | `PollPlanner.h:152`, `:171`, `:192` |
| `PollPlanner.select`, `commit`                      | `:219`, `:265` |
| `PollIndexScan`                                     | `:310` |
-/

namespace ModbusRTUBridge

/-- Half-range modular deadline comparison. -/
def pollDeadlineReached32 (now dueAt : UInt32) : Bool := now - dueAt < 0x80000000

structure PollCandidate where
  request : DownstreamRequest := {}
  dueAt : UInt32 := 0
  enabled : Bool := false
  requiresDispatch : Bool := true
deriving DecidableEq, Repr

instance : Inhabited PollCandidate := ⟨{}⟩

inductive ScheduledActionKind where
  | none
  | forwardWrite
  | poll
  | unknown (raw : UInt8)
deriving DecidableEq, Repr, Inhabited

structure PollSelection where
  kind : ScheduledActionKind := .none
  pollIndex : UInt16 := 0
  originatingPollCount : UInt16 := 0
  pollCountBound : Bool := false
deriving DecidableEq, Repr, Inhabited

def PollSelection.fromCandidateSet (selectedKind : ScheduledActionKind) (selectedPoll pollCount : UInt16) :
    PollSelection :=
  ⟨selectedKind, selectedPoll, pollCount, true⟩

structure PollPlannerState where
  nextPollIndex : UInt16 := 0
  forwardsSincePoll : UInt16 := 0
  lastPollAt : UInt32 := 0
  hasConsumedPoll : Bool := false
deriving DecidableEq, Repr, Inhabited

structure PollScanCursor where
  nextIndex : UInt16 := 0
  remaining : UInt16 := 0
  candidateCount : UInt16 := 0
  active : Bool := false
deriving DecidableEq, Repr, Inhabited

inductive PollDueStatus where
  | due | complete | invalidStorage | candidateCountChanged
deriving DecidableEq, Repr

structure PollPlannerOptions where
  maxConsecutiveForwards : UInt16 := 1
deriving DecidableEq, Repr

inductive PollSelectStatus where
  | selected | noAction | invalidStorage
deriving DecidableEq, Repr

structure PollPlanner where
  options : PollPlannerOptions := {}
deriving DecidableEq, Repr

namespace PollPlanner

def beginPollScan (pollCount : UInt16) (state : PollPlannerState) : PollScanCursor :=
  if pollCount = 0 then {}
  else ⟨if state.nextPollIndex < pollCount then state.nextPollIndex else 0, pollCount, pollCount, true⟩

/-- `nextIndex`: `some` of `indexOut` (`Candidate`) or `none` (`Complete`). -/
def nextIndex (cursor : PollScanCursor) : Option UInt16 × PollScanCursor :=
  if !cursor.active ∨ cursor.remaining = 0 ∨ cursor.candidateCount = 0 then
    (none, { cursor with active := false })
  else
    let next := cursor.nextIndex + 1
    let remaining := cursor.remaining - 1
    (some cursor.nextIndex,
     { cursor with
       nextIndex := if next = cursor.candidateCount then 0 else next
       remaining
       active := if remaining = 0 then false else cursor.active })

/-- The test of the scan loop (`PollPlanner.h:209`). -/
def isDue (now : UInt32) (polls : Storage PollCandidate) (index : UInt16) : Bool :=
  (polls.at index.toNat).enabled && pollDeadlineReached32 now (polls.at index.toNat).dueAt

/-- The `while(nextIndex(..) == Candidate)` loop of `nextDue`; each turn but the last takes one
from `remaining`. -/
def nextDueLoop (now : UInt32) (polls : Storage PollCandidate) (pollCount : UInt16) :
    Nat → PollScanCursor → PollDueStatus × PollScanCursor × PollSelection
  | 0, cursor => (.complete, cursor, {})
  | fuel + 1, cursor =>
    match nextIndex cursor with
    | (some index, cursor) =>
      if isDue now polls index then (.due, cursor, .fromCandidateSet .poll index pollCount)
      else nextDueLoop now polls pollCount fuel cursor
    | (none, cursor) => (.complete, cursor, {})

def nextDue (now : UInt32) (polls : Storage PollCandidate) (pollCount : UInt16) (cursor : PollScanCursor) :
    PollDueStatus × PollScanCursor × PollSelection :=
  if pollCount ≠ 0 ∧ polls.isNone then (.invalidStorage, {}, {})
  else if cursor.candidateCount ≠ pollCount then (.candidateCountChanged, {}, {})
  else nextDueLoop now polls pollCount (cursor.remaining.toNat + 1) cursor

def select (p : PollPlanner) (now : UInt32) (forwardReady : Bool) (polls : Storage PollCandidate)
    (pollCount : UInt16) (state : PollPlannerState) : PollSelectStatus × PollSelection :=
  if pollCount ≠ 0 ∧ polls.isNone then (.invalidStorage, {})
  else
    let scan := beginPollScan pollCount state
    let (scanStatus, _, dueSelection) := nextDue now polls pollCount scan
    if scanStatus = .invalidStorage ∨ scanStatus = .candidateCountChanged then (.invalidStorage, {})
    else
      let due := scanStatus == .due
      if forwardReady ∧ (!due ∨ state.forwardsSincePoll < p.options.maxConsecutiveForwards) then
        (.selected, .fromCandidateSet .forwardWrite 0 pollCount)
      else if due then (.selected, dueSelection)
      else if forwardReady then (.selected, .fromCandidateSet .forwardWrite 0 pollCount)
      else (.noAction, {})

def commit (selection : PollSelection) (pollCount : UInt16) (now : UInt32) (state : PollPlannerState) :
    Bool × PollPlannerState :=
  if selection.pollCountBound ∧ selection.originatingPollCount ≠ pollCount then (false, state)
  else
    match selection.kind with
    | .forwardWrite =>
      (true, if state.forwardsSincePoll ≠ 0xFFFF
        then { state with forwardsSincePoll := state.forwardsSincePoll + 1 } else state)
    | .poll =>
      if pollCount = 0 ∨ selection.pollIndex ≥ pollCount then (false, state)
      else
        let next := selection.pollIndex + 1
        (true, ⟨if next = pollCount then 0 else next, 0, now, true⟩)
    | .none | .unknown _ => (false, state)

theorem commit_false {selection : PollSelection} {pollCount : UInt16} {now : UInt32} {state : PollPlannerState}
    (h : (commit selection pollCount now state).1 = false) :
    (commit selection pollCount now state).2 = state := by
  unfold commit at h ⊢
  repeat' split at h
  all_goals simp_all

end PollPlanner

/-! ## The raw-scalar wrapper -/

/-- `PollIndexScan`: a transient scan over a persistent index and timestamp. -/
structure PollIndexScan where
  candidateCount : UInt16
  state : PollPlannerState
  scan : PollScanCursor
deriving DecidableEq, Repr

namespace PollIndexScan

def create (candidateCount nextPollIndex : UInt16) (lastPollAt : UInt32) : PollIndexScan :=
  let state : PollPlannerState :=
    { nextPollIndex := if candidateCount ≠ 0 ∧ nextPollIndex < candidateCount then nextPollIndex else 0, lastPollAt }
  ⟨candidateCount, state, PollPlanner.beginPollScan candidateCount state⟩

def next (s : PollIndexScan) : Option UInt16 × PollIndexScan :=
  let (index, scan) := PollPlanner.nextIndex s.scan
  (index, { s with scan })

def commitConsumed (s : PollIndexScan) (candidateIndex currentCandidateCount : UInt16) (now : UInt32) :
    Bool × PollIndexScan :=
  let (ok, state) := PollPlanner.commit (.fromCandidateSet .poll candidateIndex s.candidateCount)
    currentCandidateCount now s.state
  (ok, { s with state })

def nextPollIndex (s : PollIndexScan) : UInt16 := s.state.nextPollIndex
def lastPollAt (s : PollIndexScan) : UInt32 := s.state.lastPollAt

end PollIndexScan

end ModbusRTUBridge
