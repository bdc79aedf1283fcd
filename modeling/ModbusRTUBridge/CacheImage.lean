import ModbusRTUBridge.Memory
/-!
# Cached images (`CacheImage.h`)

`MutableImageView` is a bounds-checked borrowed span; `DesiredAppliedCache` pairs the visible
image with the last applied one. Every copy fails closed: a null pointer, a zero count or an
out-of-range span returns `false` and leaves the memory alone.
-/

namespace ModbusRTUBridge

/-- `p` points at one of the `count` cells from `base` on. -/
def Ptr.within (p base : Ptr) (count : Nat) : Prop :=
  p.block = base.block ∧ base.offset ≤ p.offset ∧ p.offset < base.offset + count

instance (p base : Ptr) (count : Nat) : Decidable (p.within base count) := by
  unfold Ptr.within; infer_instance

theorem Ptr.within_add {p : Ptr} {j count : Nat} (h : j < count) : (p.add j).within p count := by
  exact ⟨rfl, by simp [Ptr.add], by simpa [Ptr.add] using h⟩

section
variable (Value : Type) [MemoryCell Value]

/-- `memcpy` between spans that do not overlap. -/
def copyCells (mem : Memory) (destination source : Ptr) (count : Nat) : Memory :=
  MemoryCell.rewrite mem fun p =>
    if p.within destination count then (MemoryCell.load mem (source.add (p.offset - destination.offset)) : Value)
    else MemoryCell.load mem p

/-- `copyValues` (`CacheImage.h:53`): one element is assigned, several are `memcpy`d. -/
def copyValues (mem : Memory) (destination source : Ptr) (count : UInt16) : Memory :=
  if count = 1 then
    MemoryCell.rewrite mem fun p =>
      if p = destination then (MemoryCell.load mem source : Value) else MemoryCell.load mem p
  else copyCells Value mem destination source count.toNat

end

/-- `MutableImageView<Value>`. -/
structure MutableImageView (Value : Type) where
  values : Ptr := .null
  count : UInt16 := 0
deriving DecidableEq, Repr

namespace MutableImageView
variable {Value : Type}

def contains (v : MutableImageView Value) (start count : UInt16) : Bool :=
  if count = 0 then false
  else v.values != .null && start.toUInt32 + count.toUInt32 ≤ v.count.toUInt32

variable [MemoryCell Value]

def copyFrom (mem : Memory) (v : MutableImageView Value) (start : UInt16) (source : Ptr) (count : UInt16) :
    Bool × Memory :=
  if source = .null ∨ !v.contains start count then (false, mem)
  else (true, copyValues Value mem (v.values.add start.toNat) source count)

def copyTo (mem : Memory) (v : MutableImageView Value) (start : UInt16) (destination : Ptr) (count : UInt16) :
    Bool × Memory :=
  if destination = .null ∨ !v.contains start count then (false, mem)
  else (true, copyValues Value mem destination (v.values.add start.toNat) count)

end MutableImageView

/-- `DesiredAppliedCache<Value>`. -/
structure DesiredAppliedCache (Value : Type) where
  visible : MutableImageView Value := {}
  applied : MutableImageView Value := {}
deriving DecidableEq, Repr

namespace DesiredAppliedCache
variable {Value : Type}

variable [MemoryCell Value]

def captureDesired (mem : Memory) (c : DesiredAppliedCache Value) (start : UInt16) (immutableSnapshot : Ptr)
    (count : UInt16) : Bool × Memory :=
  c.visible.copyFrom mem start immutableSnapshot count

def markApplied (mem : Memory) (c : DesiredAppliedCache Value) (start : UInt16) (immutableSnapshot : Ptr)
    (count : UInt16) : Bool × Memory :=
  c.applied.copyFrom mem start immutableSnapshot count

def restore (mem : Memory) (c : DesiredAppliedCache Value) (start count : UInt16) : Bool × Memory :=
  if !c.visible.contains start count ∨ !c.applied.contains start count then (false, mem)
  else c.visible.copyFrom mem start (c.applied.values.add start.toNat) count

end DesiredAppliedCache

end ModbusRTUBridge
