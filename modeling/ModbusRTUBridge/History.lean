import ModbusRTUBridge.Steps
/-!
# What happened to every work

A `Log` is what an observer of the facade's calls and results writes down: one `Instance` for
every successful `admitWork`, still queued or released, with the fragments issued of it and the
answers `complete` gave to them. `Log.observe` never looks at the facade.

| in the log | read from |
| --- | --- |
| a new instance          | `admitWork` returning `Admitted` |
| a fragment issued       | `admitAction` returning `Admitted` for a `ForwardWrite` |
| an answer               | `complete` taking a `ForwardWrite` |
| a release               | `workRetired`, a `Retired` retirement, a successful `reset` |
-/

namespace ModbusRTUBridge

namespace Ingress

def table : Ingress → RegisterTable
  | .coils _ => .coils
  | .holding _ => .holdingRegisters

def start : Ingress → UInt16
  | .coils work => work.start
  | .holding work => work.start

def count : Ingress → UInt16
  | .coils work => work.count
  | .holding work => work.count

def delivery : Ingress → IngressDelivery
  | .coils work => work.delivery
  | .holding work => work.delivery

def snapshot : Ingress → Ptr
  | .coils work => work.snapshot.values
  | .holding work => work.snapshot.values

variable (ctx : Ptr) (work : Ingress)

@[simp] theorem slot_table : (work.slot ctx).table = work.table := by cases work <;> rfl
@[simp] theorem slot_upstreamStart : (work.slot ctx).upstreamStart = work.start := by cases work <;> rfl
@[simp] theorem slot_quantity : (work.slot ctx).quantity = work.count := by cases work <;> rfl
@[simp] theorem slot_workDelivery : (work.slot ctx).workDelivery = work.delivery := by cases work <;> rfl
@[simp] theorem slot_snapshot : (work.slot ctx).snapshot = work.snapshot := by cases work <;> rfl
@[simp] theorem slot_userContext : (work.slot ctx).userContext = ctx := by cases work <;> rfl

end Ingress

/-- One completion call that was taken, and what it returned. -/
structure Answer where
  write : PlannedWriteRequest
  outcome : DownstreamOutcome
  result : StoreForwardCompletion

/-- One admission of a work. -/
structure Instance where
  work : Ingress
  context : Ptr
  /-- The memory at admission. -/
  memory : Memory
  issued : List PlannedWriteRequest := []
  answers : List Answer := []

/-- The slot the admission queued. -/
def Instance.slot (i : Instance) : StoreForwardWorkSlot := i.work.slot i.context

/-- How a snapshot was handed back. -/
inductive Release where
  | completed (r : StoreForwardCompletion)
  | retired (r : StoreForwardRetirement)
  | reset

/-! ## What a call and its result say -/

/-- The instance a successful `admitWork` starts. -/
def admittedInstance (c : Call) : Res → Option Instance
  | .admission r =>
    match c.op with
    | .admitWork work _ ctx => if r.status = .admitted then some { work, context := ctx, memory := c.memory } else none
    | _ => none
  | _ => none

/-- The write a successful `admitAction` issues. -/
def issuedWrite (c : Call) : Res → Option PlannedWriteRequest
  | .actionAdmission status =>
    match c.op with
    | .admitAction a _ _ _ => if status = .admitted ∧ a.kind = .forwardWrite then some a.write else none
    | _ => none
  | _ => none

/-- The answer of a `complete` that took a write. -/
def writeAnswer (c : Call) : Res → Option Answer
  | .completion r =>
    match c.op with
    | .complete a outcome _ =>
      if r.kind = .forwardWrite ∧ StoreForwardBridge.Taken r then some ⟨a.write, outcome, r⟩ else none
    | _ => none
  | _ => none

/-- The release of the front work a result announces. -/
def frontRelease : Res → Option Release
  | .completion r => if r.workRetired then some (.completed r) else none
  | .retirement status r => if status = .retired then some (.retired r) else none
  | _ => none

/-! ## The log -/

structure Log where
  released : List (Instance × Release) := []
  /-- Oldest first. -/
  queued : List Instance := []

namespace Log

/-- All instances, in the order of their admission. -/
def instances (g : Log) : List Instance := g.released.map Prod.fst ++ g.queued

def enqueue (g : Log) (i : Option Instance) : Log := { g with queued := g.queued ++ i.toList }

/-- Something is noted of the front work. -/
def note (g : Log) (w : Option PlannedWriteRequest) (x : Option Answer) : Log :=
  { g with
    queued := g.queued.modifyHead fun i => { i with issued := i.issued ++ w.toList, answers := i.answers ++ x.toList } }

def release (g : Log) : Option Release → Log
  | none => g
  | some how =>
    match g.queued with
    | [] => g
    | i :: rest => { released := g.released ++ [(i, how)], queued := rest }

def releaseAll (g : Log) : Log := { released := g.released ++ g.queued.map (·, .reset), queued := [] }

/-- The observer. -/
def observe (g : Log) (c : Call) (r : Res) : Log :=
  if r matches .reset true then g.releaseAll
  else ((g.enqueue (admittedInstance c r)).note (issuedWrite c r) (writeAnswer c r)).release (frontRelease r)

end Log

namespace StoreForwardBridge

/-- The log of a run. -/
def log (b : StoreForwardBridge) (calls : List Call) : Log := Machine.observe Log.observe {} (b.history calls)

end StoreForwardBridge

end ModbusRTUBridge
