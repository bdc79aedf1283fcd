/-!
# Pointers and the memory behind them

The bridge borrows everything: snapshots, images, route and poll arrays, queue and ledger
slots. What the model keeps of a C++ pointer is the array it points into and the element
index; `static_cast` between `void*` and a typed pointer leaves both unchanged.

| here | there |
| --- | --- |
| `Ptr`, `Ptr.null`  | `const bool*`, `const uint16_t*`, `void*`, `nullptr` |
| `Storage α`        | a caller-owned array of records behind a pointer (`EndpointRoute[]`, `PollCandidate[]`, …); `none` is `nullptr` |
| `Memory`           | the contents of every `bool` and `uint16_t` array a snapshot or an image may live in |
-/

namespace ModbusRTUBridge

/-- A pointer: the array it points into and an index of elements within it. -/
structure Ptr where
  block : Nat
  offset : Nat
deriving DecidableEq, Repr

namespace Ptr

/-- `nullptr`. -/
def null : Ptr := ⟨0, 0⟩

instance : Inhabited Ptr := ⟨null⟩

/-- `values + count`, in elements. -/
def add (p : Ptr) (n : Nat) : Ptr := ⟨p.block, p.offset + n⟩

@[simp] theorem add_zero (p : Ptr) : p.add 0 = p := rfl

@[simp] theorem add_add (p : Ptr) (m n : Nat) : (p.add m).add n = p.add (m + n) := by
  simp [add, Nat.add_assoc]

theorem add_ne_null {p : Ptr} (h : p ≠ null) (n : Nat) : p.add n ≠ null := by
  obtain ⟨b, o⟩ := p
  simp only [add, null, ne_eq, Ptr.mk.injEq] at h ⊢
  omega

end Ptr

/-- Caller-owned records behind a pointer; `none` is `nullptr`. -/
abbrev Storage (α : Type) := Option (Nat → α)

/-- `storage[index]`. Every read in the code is guarded by a null check, so the value
returned for a null pointer is never looked at. -/
def Storage.at {α : Type} [Inhabited α] (s : Storage α) (i : Nat) : α :=
  match s with
  | some f => f i
  | none => default

@[simp] theorem Storage.at_some {α : Type} [Inhabited α] (f : Nat → α) (i : Nat) :
    Storage.at (some f) i = f i := rfl

/-- `storage[index] = value`. -/
def Storage.set {α : Type} (s : Storage α) (i : Nat) (x : α) : Storage α :=
  s.map fun f j => if j = i then x else f j

@[simp] theorem Storage.isNone_set {α : Type} (s : Storage α) (i : Nat) (x : α) :
    (s.set i x).isNone = s.isNone := by cases s <;> rfl

@[simp] theorem Storage.at_set_self {α : Type} [Inhabited α] {s : Storage α} (h : s.isNone = false) (i : Nat) (x : α) :
    Storage.at (s.set i x) i = x := by
  cases s with
  | none => simp at h
  | some f => simp [Storage.set]

@[simp] theorem Storage.at_set_ne {α : Type} [Inhabited α] (s : Storage α) {i j : Nat} (x : α) (h : j ≠ i) :
    Storage.at (s.set i x) j = s.at j := by
  cases s with
  | none => rfl
  | some f => simp [Storage.set, h]

@[simp] theorem Storage.set_set {α : Type} (s : Storage α) (i : Nat) (x y : α) : (s.set i x).set i y = s.set i y := by
  cases s with
  | none => rfl
  | some f =>
    simp only [Storage.set, Option.map_some, Option.some.injEq]
    funext j
    split <;> rfl

/-- Writing back what is there changes nothing. -/
@[simp] theorem Storage.set_at {α : Type} [Inhabited α] (s : Storage α) (i : Nat) : s.set i (s.at i) = s := by
  cases s with
  | none => rfl
  | some f =>
    simp only [Storage.set, Option.map_some, Storage.at_some, Option.some.injEq]
    funext j
    split <;> simp_all

/-- The `bool` and `uint16_t` cells of the address space. -/
structure Memory where
  coil : Ptr → Bool
  holding : Ptr → UInt16

/-- The element types of a coil and a holding-register array: `const Value*` loads and stores. -/
class MemoryCell (Value : Type) where
  load : Memory → Ptr → Value
  /-- The memory after every cell has been rewritten by a function of its address. -/
  rewrite : Memory → (Ptr → Value) → Memory
  load_rewrite : ∀ mem f p, load (rewrite mem f) p = f p

instance : MemoryCell Bool where
  load mem := mem.coil
  rewrite mem f := { mem with coil := f }
  load_rewrite _ _ _ := rfl

instance : MemoryCell UInt16 where
  load mem := mem.holding
  rewrite mem f := { mem with holding := f }
  load_rewrite _ _ _ := rfl

/-- A counter that has not run out. -/
theorem toNat_pos {x : UInt16} : 0 < x.toNat ↔ x ≠ 0 := by
  rw [ne_eq, ← UInt16.toNat_inj, UInt16.toNat_zero]
  omega

/-- Differences, sums and counters that stay within the word. -/
theorem toNat_sub_of_le {x y : UInt16} (h : y.toNat ≤ x.toNat) : (x - y).toNat = x.toNat - y.toNat :=
  UInt16.toNat_sub_of_le x y (UInt16.le_iff_toNat_le.2 h)

theorem toNat_pred {x : UInt16} (h : 0 < x.toNat) : (x - 1).toNat = x.toNat - 1 := toNat_sub_of_le h

theorem toNat_add_of_lt {x y : UInt16} (h : x.toNat + y.toNat < 65536) : (x + y).toNat = x.toNat + y.toNat := by
  rw [UInt16.toNat_add]
  exact Nat.mod_eq_of_lt h

theorem toNat_succ_of_lt {x : UInt16} (h : x.toNat < 65535) : (x + 1).toNat = x.toNat + 1 :=
  toNat_add_of_lt (Nat.succ_lt_succ h)

theorem toNat_succ {x : UInt16} (h : x ≠ 0xFFFF) : (x + 1).toNat = x.toNat + 1 := by
  have hne : x.toNat ≠ 65535 := fun e => h (UInt16.toNat_inj.1 e)
  have hlt := x.toNat_lt
  exact toNat_succ_of_lt (by omega)

end ModbusRTUBridge
