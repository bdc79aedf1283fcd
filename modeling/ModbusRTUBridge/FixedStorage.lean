import ModbusRTUBridge.Memory
/-!
# Fixed-capacity FIFO storage (`FixedStorage.h`)

`FixedRingQueue<T>` over caller-owned storage: a head, a size, and compare-and-subtract
instead of division.
-/

namespace ModbusRTUBridge

structure FixedRingQueue (T : Type) where
  storage : Storage T := none
  capacity : UInt16 := 0
  head : UInt16 := 0
  size : UInt16 := 0

namespace FixedRingQueue
variable {T : Type}

def validStorage (q : FixedRingQueue T) : Bool := q.capacity == 0 || !q.storage.isNone

def empty (q : FixedRingQueue T) : Bool := q.size == 0
def full (q : FixedRingQueue T) : Bool := q.size == q.capacity

def increment (q : FixedRingQueue T) (index : UInt16) : UInt16 :=
  if index + 1 = q.capacity then 0 else index + 1

def physicalIndex (q : FixedRingQueue T) (logicalIndex : UInt16) : UInt16 :=
  let sum := q.head.toUInt32 + logicalIndex.toUInt32
  (if sum ≥ q.capacity.toUInt32 then sum - q.capacity.toUInt32 else sum).toUInt16

def tryPush (q : FixedRingQueue T) (value : T) : Bool × FixedRingQueue T :=
  if !q.validStorage ∨ q.full then (false, q)
  else (true, { q with storage := q.storage.set (q.physicalIndex q.size).toNat value, size := q.size + 1 })

def popFront (q : FixedRingQueue T) : Bool × FixedRingQueue T :=
  if q.empty ∨ !q.validStorage then (false, q)
  else
    let size := q.size - 1
    -- the emptied queue goes back to its canonical state
    (true, { q with head := if size = 0 then 0 else q.increment q.head, size })

variable [Inhabited T]

/-- `front()`: `none` is `nullptr`. -/
def front (q : FixedRingQueue T) : Option T :=
  if q.empty ∨ !q.validStorage then none else some (q.storage.at q.head.toNat)

/-- `*front() = value` through the pointer `front()` returned. -/
def writeFront (q : FixedRingQueue T) (value : T) : FixedRingQueue T :=
  { q with storage := q.storage.set q.head.toNat value }

def tryPop (q : FixedRingQueue T) : Option T × FixedRingQueue T :=
  if q.empty ∨ !q.validStorage then (none, q)
  else (some (q.storage.at q.head.toNat), q.popFront.2)

/-- `at(logicalIndex)`. -/
def elementAt (q : FixedRingQueue T) (logicalIndex : UInt16) : Option T :=
  if logicalIndex < q.size ∧ q.validStorage then some (q.storage.at (q.physicalIndex logicalIndex).toNat)
  else none

def clear (q : FixedRingQueue T) : FixedRingQueue T := { q with head := 0, size := 0 }

end FixedRingQueue

end ModbusRTUBridge
