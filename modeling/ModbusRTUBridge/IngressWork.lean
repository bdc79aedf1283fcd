import ModbusRTUBridge.Memory
/-!
# Ingress work and sessions (`IngressWork.h`)

Identities, delivery classes, the session gate `workCurrent`, and the borrowed view of one
accepted write. `IngressWorkView<Value>` keeps its element type as a parameter; the payload
itself is only a pointer.
-/

namespace ModbusRTUBridge

/-- How an accepted upstream write is delivered. -/
inductive IngressDelivery where
  | tracked
  | silentOrdered
  | latestState
  | rejected
  /-- Any other value of the underlying `uint8_t`. -/
  | unknown (raw : UInt8)
deriving DecidableEq, Repr, Inhabited

def isAccepted : IngressDelivery → Bool
  | .tracked | .silentOrdered | .latestState => true
  | .rejected | .unknown _ => false

def isLatestState (delivery : IngressDelivery) : Bool := delivery == .latestState

def tracksPublicCompletion (delivery : IngressDelivery) : Bool := delivery == .tracked

/-! ## Serials and identities -/

/-- `nextNonZeroSerial16`: zero is reserved as invalid. -/
def nextNonZeroSerial16 (value : UInt16) : UInt16 :=
  let next := value + 1
  if next = 0 then 1 else next

/-- RFC-1982-style ordering for non-zero 16-bit serials (`IngressWork.h:100`). -/
def nonZeroSerial16Before (lhs rhs : UInt16) : Bool :=
  if lhs = rhs ∨ lhs = 0 then false
  else if rhs = 0 then true
  else rhs - lhs < 0x8000

structure WorkIdentity where
  sourceToken : UInt16 := 0
  sessionGeneration : UInt16 := 0
deriving DecidableEq, Repr, Inhabited

def WorkIdentity.valid (w : WorkIdentity) : Bool := w.sourceToken != 0 && w.sessionGeneration != 0

def sameWorkIdentity (lhs rhs : WorkIdentity) : Bool :=
  lhs.sourceToken == rhs.sourceToken && lhs.sessionGeneration == rhs.sessionGeneration

@[simp] theorem sameWorkIdentity_iff {lhs rhs : WorkIdentity} :
    sameWorkIdentity lhs rhs = true ↔ lhs = rhs := by
  cases lhs; cases rhs; simp [sameWorkIdentity]

def workIdentityBefore (lhs rhs : WorkIdentity) : Bool :=
  lhs.valid && rhs.valid && lhs.sessionGeneration == rhs.sessionGeneration &&
    nonZeroSerial16Before lhs.sourceToken rhs.sourceToken

/-! ## Sessions -/

inductive SessionPhase where
  | closed
  | teardown
  | initializing
  | ready
  | unknown (raw : UInt8)
deriving DecidableEq, Repr, Inhabited

/-- A borrowed snapshot of the caller-owned lifecycle state. -/
structure SessionStateView where
  active : Bool := false
  currentGeneration : UInt16 := 0
  appliedGeneration : UInt16 := 0
  phase : SessionPhase := .closed
deriving DecidableEq, Repr, Inhabited

def admissionOpen (session : SessionStateView) : Bool :=
  session.active && session.currentGeneration != 0 &&
    session.currentGeneration == session.appliedGeneration && session.phase == .ready

def workCurrent (work : WorkIdentity) (session : SessionStateView) : Bool :=
  work.valid && session.active && work.sessionGeneration == session.currentGeneration &&
    session.currentGeneration == session.appliedGeneration && session.phase == .ready

theorem workCurrent_valid {work : WorkIdentity} {session : SessionStateView}
    (h : workCurrent work session = true) : work.valid = true := by
  simp only [workCurrent, Bool.and_eq_true] at h
  exact h.1.1.1.1

/-! ## Work views -/

/-- `ImmutableSnapshotView<Value>`: a pointer and a count. -/
structure ImmutableSnapshotView (Value : Type) where
  values : Ptr := .null
  count : UInt16 := 0
deriving DecidableEq, Repr, Inhabited

def ImmutableSnapshotView.validFor {Value : Type} (s : ImmutableSnapshotView Value) (expectedCount : UInt16) : Bool :=
  expectedCount != 0 && s.values != .null && s.count == expectedCount

/-- `IngressWorkView<Value>`: one accepted upstream write without its payload. -/
structure IngressWorkView (Value : Type) where
  identity : WorkIdentity := {}
  start : UInt16 := 0
  count : UInt16 := 0
  delivery : IngressDelivery := .rejected
  snapshot : ImmutableSnapshotView Value := {}
deriving DecidableEq, Repr, Inhabited

abbrev CoilIngressWorkView := IngressWorkView Bool
abbrev HoldingIngressWorkView := IngressWorkView UInt16

def IngressWorkView.validAcceptedShape {Value : Type} (work : IngressWorkView Value) : Bool :=
  isAccepted work.delivery && work.snapshot.validFor work.count &&
    work.start.toUInt32 + work.count.toUInt32 ≤ 0x10000

/-- `makeCoilIngressWork` and `makeHoldingIngressWork`: the snapshot has the work's own count. -/
def makeIngressWork {Value : Type} (identity : WorkIdentity) (start count : UInt16) (delivery : IngressDelivery)
    (snapshot : Ptr) : IngressWorkView Value :=
  ⟨identity, start, count, delivery, ⟨snapshot, count⟩⟩

end ModbusRTUBridge
