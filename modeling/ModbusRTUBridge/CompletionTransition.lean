import ModbusRTUBridge.CacheImage
import ModbusRTUBridge.ForwardPlan
/-!
# Completion facts (`CompletionTransition.h`)

`resolveCompletion` folds one terminal downstream result into a per-work aggregate, strictly
in fragment order; `applyAppliedImageTransition` records what was applied.
-/

namespace ModbusRTUBridge

/-- Terminal result facts supplied by the downstream adapter. -/
inductive DownstreamOutcome where
  | applied
  | definitelyNotSent
  | sendUncertain
  | failedAfterSend
  | unknown (raw : UInt8)
deriving DecidableEq, Repr, Inhabited

def isKnownDownstreamOutcome : DownstreamOutcome → Bool
  | .applied | .definitelyNotSent | .sendUncertain | .failedAfterSend => true
  | .unknown _ => false

inductive AppliedImageAction where
  | none | markAppliedRange
deriving DecidableEq, Repr

inductive DesiredImageDisposition where
  | unchanged | callerPolicyRequired
deriving DecidableEq, Repr

inductive CompletionNotice where
  | none | workSucceeded | workFailed
deriving DecidableEq, Repr

inductive CompletionDecisionStatus where
  | current | identityMismatch | staleSession | aggregateMismatch | outOfOrder | alreadyTerminal | invalidOutcome
deriving DecidableEq, Repr

structure CompletionRecord where
  identity : RequestIdentity := {}
  outcome : DownstreamOutcome := .sendUncertain
deriving DecidableEq, Repr

/-- Caller-owned, per-work completion state. -/
structure CompletionAggregate where
  work : WorkIdentity := {}
  delivery : IngressDelivery := .rejected
  nextFragmentIndex : UInt16 := 0
  failed : Bool := false
  complete : Bool := false
  noticeEmitted : Bool := false
deriving DecidableEq, Repr, Inhabited

def CompletionAggregate.valid (a : CompletionAggregate) : Bool := a.work.valid && isAccepted a.delivery

structure CompletionDecision where
  status : CompletionDecisionStatus := .aggregateMismatch
  identity : RequestIdentity := {}
  appliedAction : AppliedImageAction := .none
  desiredDisposition : DesiredImageDisposition := .unchanged
  notice : CompletionNotice := .none
deriving DecidableEq, Repr

def CompletionDecision.current (d : CompletionDecision) : Bool := d.status == .current

/-- `CompletionDetail::rejectedDecision`. -/
def rejectedDecision (status : CompletionDecisionStatus) : CompletionDecision :=
  ⟨status, {}, .none, .unchanged, .none⟩

/-- The checks of `resolveCompletion` before any aggregate state is looked at for the outcome
(`CompletionTransition.h:180-205`): the status of the early return, if there is one. -/
def rejection (expected : PlannedWriteRequest) (observed : CompletionRecord) (session : SessionStateView)
    (aggregate : CompletionAggregate) : Option CompletionDecisionStatus :=
  if !aggregate.valid ∨ !expected.identity.valid ∨
      !sameWorkIdentity expected.identity.work aggregate.work ∨ expected.delivery ≠ aggregate.delivery then
    some .aggregateMismatch
  else if aggregate.complete then some .alreadyTerminal
  else if !isKnownDownstreamOutcome observed.outcome then some .invalidOutcome
  else if !sameRequestIdentity expected.identity observed.identity then some .identityMismatch
  else if !workCurrent expected.identity.work session then some .staleSession
  else if expected.identity.fragmentIndex ≠ aggregate.nextFragmentIndex then some .outOfOrder
  else none

/-- `resolveCompletion` (`CompletionTransition.h:175`): the decision and the aggregate after it. -/
def resolveCompletion (expected : PlannedWriteRequest) (observed : CompletionRecord) (session : SessionStateView)
    (aggregate : CompletionAggregate) : CompletionDecision × CompletionAggregate :=
  match rejection expected observed session aggregate with
  | some status => (rejectedDecision status, aggregate)
  | none =>
    if observed.outcome = .applied then
      if expected.finalFragment then
        let notice := if !aggregate.failed ∧ tracksPublicCompletion expected.delivery ∧ !aggregate.noticeEmitted
          then CompletionNotice.workSucceeded else .none
        (⟨.current, expected.identity, .markAppliedRange, .unchanged, notice⟩,
         { aggregate with
           complete := true
           noticeEmitted := if notice ≠ .none then true else aggregate.noticeEmitted })
      else if aggregate.nextFragmentIndex = 0xFFFF then (rejectedDecision .aggregateMismatch, aggregate)
      else
        (⟨.current, expected.identity, .markAppliedRange, .unchanged, .none⟩,
         { aggregate with nextFragmentIndex := aggregate.nextFragmentIndex + 1 })
    else if !expected.finalFragment ∧ aggregate.nextFragmentIndex = 0xFFFF then
      (rejectedDecision .aggregateMismatch, aggregate)
    else
      let notice := if tracksPublicCompletion expected.delivery ∧ !aggregate.noticeEmitted
        then CompletionNotice.workFailed else .none
      (⟨.current, expected.identity, .none, .callerPolicyRequired, notice⟩,
       { aggregate with
         failed := true
         complete := expected.finalFragment
         noticeEmitted := if notice ≠ .none then true else aggregate.noticeEmitted
         nextFragmentIndex :=
           if !expected.finalFragment then aggregate.nextFragmentIndex + 1 else aggregate.nextFragmentIndex })

@[simp] theorem rejectedDecision_current {status : CompletionDecisionStatus} (h : status ≠ .current) :
    (rejectedDecision status).current = false := by
  simpa [rejectedDecision, CompletionDecision.current] using h

@[simp] theorem rejectedDecision_notice (status : CompletionDecisionStatus) :
    (rejectedDecision status).notice = .none := rfl

/-! ## Recording what was applied -/

/-- The pointer and register table of a `PlannedWriteRequest` an overload of
`applyAppliedImageTransition` works on. -/
class AppliedPayload (Value : Type) extends WorkTraits Value where
  values : PlannedWriteRequest → Ptr

instance : AppliedPayload Bool where
  values request := request.coilValues

instance : AppliedPayload UInt16 where
  values request := request.holdingValues

/-- `applyAppliedImageTransition`, both overloads (`CompletionTransition.h:271`, `:287`). -/
def applyAppliedImageTransition {Value : Type} [AppliedPayload Value] (mem : Memory)
    (cache : DesiredAppliedCache Value) (request : PlannedWriteRequest) (decision : CompletionDecision) :
    Bool × Memory :=
  if !decision.current ∨ !sameRequestIdentity decision.identity request.identity then (false, mem)
  else if decision.appliedAction = .none then (true, mem)
  else if request.table = WorkTraits.table Value then
    cache.markApplied mem request.upstreamStart (AppliedPayload.values Value request) request.quantity
  else (false, mem)

end ModbusRTUBridge
