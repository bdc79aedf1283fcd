import ModbusRTUBridge.CacheCopy
import ModbusRTUBridge.WriteTrace
/-!
# A facade and the caller's caches

The caller keeps a `DesiredAppliedCache` for either element type and records every completion
in the one of the write's table (`README.md`, "applyAppliedImageTransition"). In between it captures and
restores ranges, and stores to memory that holds no image. One `Input` is one such thing to do;
what a call sees of the memory is the memory at that moment.
-/

namespace ModbusRTUBridge

structure Caches where
  coils : DesiredAppliedCache Bool
  holding : DesiredAppliedCache UInt16

/-- The caller's own operations on a cache. -/
inductive CacheOp where
  | captureDesired (start : UInt16) (immutableSnapshot : Ptr) (count : UInt16)
  | restore (start count : UInt16)
deriving DecidableEq

def CacheOp.perform {Value : Type} [MemoryCell Value] (cache : DesiredAppliedCache Value) (mem : Memory) :
    CacheOp → Bool × Memory
  | .captureDesired start snapshot count => cache.captureDesired mem start snapshot count
  | .restore start count => cache.restore mem start count

/-- A completion goes to the cache of its write's table. -/
def recordApplied (caches : Caches) (mem : Memory) (w : PlannedWriteRequest) (d : CompletionDecision) : Memory :=
  match w.table with
  | .coils => (applyAppliedImageTransition mem caches.coils w d).2
  | .holdingRegisters => (applyAppliedImageTransition mem caches.holding w d).2
  | _ => mem

namespace CachedBridge

inductive Input where
  | call (op : Op)
  | coils (op : CacheOp)
  | holding (op : CacheOp)
  /-- The caller writes to memory of its own. -/
  | store (memory : Memory)

inductive Output where
  /-- The call as it was made, with the memory it found, and its result. -/
  | called (c : Call) (r : Res)
  | moved (done : Bool)
  | stored

end CachedBridge

structure CachedBridge where
  bridge : StoreForwardBridge
  memory : Memory

namespace CachedBridge

/-- What the caller records after a call. -/
def recordCompletion (caches : Caches) (mem : Memory) : Op → Res → Memory
  | .complete a _ _, .completion r => recordApplied caches mem a.write r.decision
  | _, _ => mem

def exec (caches : Caches) (s : CachedBridge) : Input → Output × CachedBridge
  | .call op =>
    let c : Call := ⟨s.memory, op⟩
    (.called c (s.bridge.exec c).1, ⟨(s.bridge.exec c).2, recordCompletion caches s.memory op (s.bridge.exec c).1⟩)
  | .coils op => (.moved (op.perform caches.coils s.memory).1, { s with memory := (op.perform caches.coils s.memory).2 })
  | .holding op =>
    (.moved (op.perform caches.holding s.memory).1, { s with memory := (op.perform caches.holding s.memory).2 })
  | .store memory => (.stored, { s with memory })

abbrev run (caches : Caches) (s : CachedBridge) (inputs : List Input) : CachedBridge :=
  Machine.final (exec caches) s inputs

abbrev history (caches : Caches) (s : CachedBridge) (inputs : List Input) :
    List (Machine.Event CachedBridge Input Output) :=
  Machine.trace (exec caches) s inputs

end CachedBridge

/-! ## What the images should hold -/

/-- The fragment was completed as applied. -/
def Answer.Applied (x : Answer) : Prop := x.result.status = .completed ∧ x.outcome = .applied

instance (x : Answer) : Decidable x.Applied := by unfold Answer.Applied; infer_instance

/-- The write a call completed as applied. -/
def appliedWrite (c : Call) (r : Res) : Option PlannedWriteRequest :=
  (writeAnswer c r).bind fun x => if x.Applied then some x.write else none

/-- The element of an instance's snapshot that belongs to an upstream address, at admission. -/
def Instance.value (Value : Type) [MemoryCell Value] (i : Instance) (address : Nat) : Value :=
  MemoryCell.load i.memory (i.work.snapshot.add (address - i.work.start.toNat))

/-- `w` writes the upstream address of the table `t`. -/
def PlannedWriteRequest.Covers (w : PlannedWriteRequest) (t : RegisterTable) (address : Nat) : Prop :=
  w.table = t ∧ w.upstreamStart.toNat ≤ address ∧ address < w.upstreamStart.toNat + w.quantity.toNat

instance (w : PlannedWriteRequest) (t : RegisterTable) (address : Nat) : Decidable (w.Covers t address) := by
  unfold PlannedWriteRequest.Covers; infer_instance

/-- A fragment completed as applied, and the instance it is of. -/
abbrev Piece := Instance × PlannedWriteRequest

/-- Of the pieces covering an address the last decides what value it carries. -/
def carried (Value : Type) [WorkTraits Value] (pieces : List Piece) (address : Nat) (initial : Value) : Value :=
  pieces.foldl (fun v x => if x.2.Covers (WorkTraits.table Value) address then x.1.value Value address else v) initial

/-- The log of the calls, and the fragments completed as applied in the order they were. -/
structure CacheLog where
  log : Log := {}
  pieces : List Piece := []

namespace CacheLog

/-- The piece a call adds: its write is noted of the front instance. -/
def newPiece (g : Log) (c : Call) (r : Res) : List Piece :=
  g.queued.head?.toList.flatMap fun i => (appliedWrite c r).toList.map (i.origin, ·)

def observe (g : CacheLog) (_ : CachedBridge.Input) : CachedBridge.Output → CacheLog
  | .called c r => { log := g.log.observe c r, pieces := g.pieces ++ newPiece g.log c r }
  | _ => g

end CacheLog

namespace CachedBridge

def log (caches : Caches) (s : CachedBridge) (inputs : List Input) : CacheLog :=
  Machine.observe CacheLog.observe {} (s.history caches inputs)

end CachedBridge

/-! ## The caller's side of the contract -/

/-- The two images are apart, and the applied one is there and reaches over every routed address. -/
structure DesiredAppliedCache.Fits {Value : Type} (cache : DesiredAppliedCache Value) (routes : RouteTableView)
    (t : RegisterTable) : Prop where
  applied_ne : cache.applied.values ≠ .null
  apart : cache.visible.Apart cache.applied
  covers : ∀ r < routes.routeCount.toNat,
    (routes.upstream t r).count = 0 ∨ (routes.upstream t r).stop ≤ cache.applied.count.toNat

/-- What the caller stores is no image. -/
def Caches.Spared (caches : Caches) (mem mem' : Memory) : Prop :=
  (caches.coils.visible.Same mem mem' ∧ caches.coils.applied.Same mem mem') ∧
  (caches.holding.visible.Same mem mem' ∧ caches.holding.applied.Same mem mem')

instance (caches : Caches) (mem mem' : Memory) : Decidable (caches.Spared mem mem') := by
  unfold Caches.Spared; infer_instance

namespace CachedBridge

/-- Queued snapshots are as they were at admission, and images are only written by their cache. -/
def Honest (caches : Caches) (s : CachedBridge) (g : CacheLog) (input : Input) : Prop :=
  (∀ i ∈ g.log.queued, i.work.SameCells s.memory i.memory) ∧
  match input with
  | .store memory => caches.Spared s.memory memory
  | _ => True

instance (caches : Caches) (s : CachedBridge) (g : CacheLog) (input : Input) : Decidable (Honest caches s g input) := by
  unfold Honest; cases input <;> infer_instance

/-- A run in which the caller keeps its side. -/
abbrev Keeps (caches : Caches) (s : CachedBridge) (inputs : List Input) : Prop :=
  Machine.Meets (exec caches) (Honest caches) CacheLog.observe s {} inputs

end CachedBridge

end ModbusRTUBridge
