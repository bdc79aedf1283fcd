import ModbusRTUBridge.DownstreamExecutor
import ModbusRTUBridge.IngressWork
import ModbusRTUBridge.RouteTable
/-!
# Forward planning (`ForwardPlan.h`)

`ForwardPlanner.begin` proves that a whole upstream range is routable before
`ForwardPlanner.next` hands out the first fragment; `next` borrows a slice of the snapshot
and reads its first element, so it takes the memory as an argument. The two template
instances differ only in `WorkTraits`.

| here | there |
| --- | --- |
| `WorkTraits`             | `ForwardPlan.h:199-235` |
| `ForwardPlanner.begin`, `beginIn` | `:264`, `:329` (the session-checked overload) |
| `ForwardPlanner.next`    | `:342` |
-/

namespace ModbusRTUBridge

inductive ForwardSpanPolicy where
  | singleEndpoint
  | preflightAndSplit
  | unknown (raw : UInt8)
deriving DecidableEq, Repr, Inhabited

def isKnownForwardSpanPolicy : ForwardSpanPolicy → Bool
  | .singleEndpoint | .preflightAndSplit => true
  | .unknown _ => false

structure ForwardPlanOptions where
  maxCoilsPerRequest : UInt16 := 0
  maxHoldingRegistersPerRequest : UInt16 := 0
  orderedSpanPolicy : ForwardSpanPolicy := .singleEndpoint
  latestStateSpanPolicy : ForwardSpanPolicy := .preflightAndSplit
deriving DecidableEq, Repr

inductive ForwardPlanStatus where
  | ready | notAccepted | invalidWork | staleSession | invalidLimits | empty | addressOverflow | gap
  | multipleEndpointsNotAllowed | invalidPolicy
deriving DecidableEq, Repr

inductive ForwardNextStatus where
  | planned | complete | invalidSequence | topologyChanged
deriving DecidableEq, Repr

/-- `nextNonZeroSequence32`: zero is reserved as "no sequence". -/
def nextNonZeroSequence32 (value : UInt32) : UInt32 :=
  let next := value + 1
  if next = 0 then 1 else next

theorem nextNonZeroSequence32_ne_zero (value : UInt32) : nextNonZeroSequence32 value ≠ 0 := by
  simp only [nextNonZeroSequence32]
  split
  · decide
  · assumption

structure RequestIdentity where
  work : WorkIdentity := {}
  requestSequence : UInt32 := 0
  fragmentIndex : UInt16 := 0
deriving DecidableEq, Repr, Inhabited

def RequestIdentity.valid (r : RequestIdentity) : Bool := r.work.valid && r.requestSequence != 0

def sameRequestIdentity (lhs rhs : RequestIdentity) : Bool :=
  sameWorkIdentity lhs.work rhs.work && lhs.requestSequence == rhs.requestSequence &&
    lhs.fragmentIndex == rhs.fragmentIndex

@[simp] theorem sameRequestIdentity_iff {lhs rhs : RequestIdentity} :
    sameRequestIdentity lhs rhs = true ↔ lhs = rhs := by
  cases lhs; cases rhs; simp [sameRequestIdentity, and_assoc]

/-- A write request borrowed from an immutable snapshot. -/
structure PlannedWriteRequest where
  identity : RequestIdentity := {}
  delivery : IngressDelivery := .rejected
  table : RegisterTable := .coils
  operation : DownstreamOperation := .writeSingleCoil
  routeIndex : UInt16 := 0
  endpointId : UInt8 := 0
  upstreamStart : UInt16 := 0
  downstreamStart : UInt16 := 0
  quantity : UInt16 := 0
  sourceOffset : UInt16 := 0
  coilValues : Ptr := .null
  holdingValues : Ptr := .null
  coilValue : Bool := false
  holdingValue : UInt16 := 0
  finalFragment : Bool := false
deriving DecidableEq, Repr, Inhabited

def samePlannedWriteRequest (lhs rhs : PlannedWriteRequest) : Bool :=
  sameRequestIdentity lhs.identity rhs.identity && lhs.delivery == rhs.delivery &&
    lhs.table == rhs.table && lhs.operation == rhs.operation && lhs.routeIndex == rhs.routeIndex &&
    lhs.endpointId == rhs.endpointId && lhs.upstreamStart == rhs.upstreamStart &&
    lhs.downstreamStart == rhs.downstreamStart && lhs.quantity == rhs.quantity &&
    lhs.sourceOffset == rhs.sourceOffset && lhs.coilValues == rhs.coilValues &&
    lhs.holdingValues == rhs.holdingValues && lhs.coilValue == rhs.coilValue &&
    lhs.holdingValue == rhs.holdingValue && lhs.finalFragment == rhs.finalFragment

/-- The comparison leaves no field out. -/
@[simp] theorem samePlannedWriteRequest_iff {lhs rhs : PlannedWriteRequest} :
    samePlannedWriteRequest lhs rhs = true ↔ lhs = rhs := by
  cases lhs; cases rhs; simp [samePlannedWriteRequest, and_assoc]

/-- `ForwardCursor<Value>`. -/
structure ForwardCursor (Value : Type) where
  work : IngressWorkView Value := {}
  nextAddress : UInt16 := 0
  remaining : UInt16 := 0
  sourceOffset : UInt16 := 0
  fragmentIndex : UInt16 := 0
  active : Bool := false
deriving DecidableEq, Repr, Inhabited

abbrev CoilForwardCursor := ForwardCursor Bool
abbrev HoldingForwardCursor := ForwardCursor UInt16

/-! ## The two element types -/

/-- `WorkTraits<Value>`. -/
class WorkTraits (Value : Type) extends MemoryCell Value where
  table : RegisterTable
  maxQuantity : ForwardPlanOptions → UInt16
  populatePayload : Memory → Ptr → UInt16 → PlannedWriteRequest → PlannedWriteRequest

instance : WorkTraits Bool where
  table := .coils
  maxQuantity options := options.maxCoilsPerRequest
  populatePayload mem values quantity request :=
    { request with
      coilValues := values
      coilValue := mem.coil values
      operation := if quantity = 1 then .writeSingleCoil else .writeMultipleCoils }

instance : WorkTraits UInt16 where
  table := .holdingRegisters
  maxQuantity options := options.maxHoldingRegistersPerRequest
  populatePayload mem values quantity request :=
    { request with
      holdingValues := values
      holdingValue := mem.holding values
      operation := if quantity = 1 then .writeSingleHoldingRegister else .writeMultipleHoldingRegisters }

def mapSpanStatus : RoutedSpanStatus → ForwardPlanStatus
  | .complete => .ready
  | .empty => .empty
  | .addressOverflow => .addressOverflow
  | .gap => .gap

/-! ## The planner -/

structure ForwardPlanner where
  routes : RouteTableView
  options : ForwardPlanOptions

namespace ForwardPlanner

section
variable {Value : Type} [WorkTraits Value]

/-- The span policy the delivery selects. -/
def spanPolicy (p : ForwardPlanner) (delivery : IngressDelivery) : ForwardSpanPolicy :=
  if isLatestState delivery then p.options.latestStateSpanPolicy else p.options.orderedSpanPolicy

/-- The cursor `begin` leaves behind when it returns `Ready` (`ForwardPlan.h:319-324`). -/
def startCursor (work : IngressWorkView Value) : ForwardCursor Value :=
  ⟨work, work.start, work.count, 0, 0, true⟩

/-- `begin(work, cursor)`; on every other status the cursor is the default one. -/
def begin (p : ForwardPlanner) (work : IngressWorkView Value) : ForwardPlanStatus × ForwardCursor Value :=
  if !isAccepted work.delivery then (.notAccepted, {})
  else if work.count = 0 then (.empty, {})
  else if work.start.toUInt32 + work.count.toUInt32 > 0x10000 then (.addressOverflow, {})
  else if !work.snapshot.validFor work.count then (.invalidWork, {})
  else if WorkTraits.maxQuantity Value p.options = 0 then (.invalidLimits, {})
  else
    let table := WorkTraits.table Value
    let span := p.routes.inspectSpan table work.start work.count
    if span ≠ .complete then (mapSpanStatus span, {})
    else
      match p.spanPolicy work.delivery with
      | .singleEndpoint =>
        match p.routes.locate table work.start with
        | none => (.gap, {})
        | some routeIndex =>
          let endpointRange := p.routes.upstream table routeIndex.toNat
          let workEnd := work.start.toUInt32 + work.count.toUInt32
          if workEnd > endpointRange.endAddress then (.multipleEndpointsNotAllowed, {})
          else (.ready, startCursor work)
      | .preflightAndSplit => (.ready, startCursor work)
      | .unknown _ => (.invalidPolicy, {})

/-- `begin(work, session, cursor)`. -/
def beginIn (p : ForwardPlanner) (work : IngressWorkView Value) (session : SessionStateView) :
    ForwardPlanStatus × ForwardCursor Value :=
  if !workCurrent work.identity session then (.staleSession, {}) else p.begin work

/-- `next(cursor, requestSequence, request)`: status, cursor and request after the call. -/
def next (mem : Memory) (p : ForwardPlanner) (cursor : ForwardCursor Value) (requestSequence : UInt32) :
    ForwardNextStatus × ForwardCursor Value × PlannedWriteRequest :=
  if !cursor.active ∨ cursor.remaining = 0 then (.complete, { cursor with active := false }, {})
  else if requestSequence = 0 ∧ cursor.work.identity.valid then (.invalidSequence, cursor, {})
  else
    let table := WorkTraits.table Value
    match p.routes.locate table cursor.nextAddress with
    | none => (.topologyChanged, { cursor with active := false, remaining := 0 }, {})
    | some routeIndex =>
      let route := p.routes.route routeIndex.toNat
      let upstream := p.routes.upstream table routeIndex.toNat
      let downstream := p.routes.downstream table routeIndex.toNat
      let routeOffset := cursor.nextAddress - upstream.start
      let routeAvailable := upstream.count - routeOffset
      let maxQuantity := WorkTraits.maxQuantity Value p.options
      let quantity := if cursor.remaining < routeAvailable then cursor.remaining else routeAvailable
      let quantity := if quantity > maxQuantity then maxQuantity else quantity
      if quantity = 0 then (.topologyChanged, { cursor with active := false, remaining := 0 }, {})
      else
        let request : PlannedWriteRequest :=
          { identity := ⟨cursor.work.identity, requestSequence, cursor.fragmentIndex⟩
            delivery := cursor.work.delivery
            table
            routeIndex
            endpointId := route.endpointId
            upstreamStart := cursor.nextAddress
            downstreamStart := downstream.start + routeOffset
            quantity
            sourceOffset := cursor.sourceOffset
            finalFragment := cursor.remaining == quantity }
        let request := WorkTraits.populatePayload Value mem
          (cursor.work.snapshot.values.add cursor.sourceOffset.toNat) quantity request
        let remaining := cursor.remaining - quantity
        (.planned,
         { cursor with
           nextAddress := cursor.nextAddress + quantity
           remaining
           sourceOffset := cursor.sourceOffset + quantity
           fragmentIndex := cursor.fragmentIndex + 1
           active := if remaining = 0 then false else cursor.active },
         request)

end

end ForwardPlanner

end ModbusRTUBridge
