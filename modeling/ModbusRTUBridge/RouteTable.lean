import ModbusRTUBridge.Memory
/-!
# Route tables (`RouteTable.h`)

Line by line: `AddressRange`, `RouteTableView::validate`, the `int16_t` binary search of
`locate`, and the two span walks built on it. Machine integers are Lean's own (`UInt8`,
`UInt16`, `UInt32`), so `+` and `-` wrap as the casts of the source do; the `int16_t`
bounds of the search are `Int`s passed through `toInt16`.

| here | there |
| --- | --- |
| `RouteTableView.validate`    | `RouteTable.h:130` |
| `RouteTableView.locate`      | `RouteTable.h:184` |
| `RouteTableView.inspectSpan` | `RouteTable.h:224` |
| `RouteTableView.beginSpan`, `RouteTableView.next` | `RouteTable.h:253`, `:272` |
-/

namespace ModbusRTUBridge

inductive RegisterTable where
  | coils
  | discreteInputs
  | holdingRegisters
  | inputRegisters
  /-- `Count` and every representable value above it. -/
  | unknown (raw : UInt8)
deriving DecidableEq, Repr, Inhabited

/-- `RegisterTable::Count`. -/
def RegisterTable.count : Nat := 4

/-- `static_cast<uint8_t>(table)`. -/
def RegisterTable.index : RegisterTable → Nat
  | .coils => 0
  | .discreteInputs => 1
  | .holdingRegisters => 2
  | .inputRegisters => 3
  | .unknown raw => RegisterTable.count + raw.toNat

/-- A half-open Modbus address range `[start, start + count)`. -/
structure AddressRange where
  start : UInt16
  count : UInt16
deriving DecidableEq, Repr, Inhabited

namespace AddressRange

/-- `end()`: the 32-bit end keeps a 16-bit wrap visible. -/
def endAddress (r : AddressRange) : UInt32 := r.start.toUInt32 + r.count.toUInt32

def contains (r : AddressRange) (address : UInt16) : Bool :=
  r.count != 0 && r.start.toUInt32 ≤ address.toUInt32 && address.toUInt32 < r.endAddress

theorem toNat_endAddress (r : AddressRange) : r.endAddress.toNat = r.start.toNat + r.count.toNat := by
  have h1 := r.start.toNat_lt
  have h2 := r.count.toNat_lt
  simp only [endAddress, UInt32.toNat_add, UInt16.toNat_toUInt32]
  omega

theorem contains_iff (r : AddressRange) (a : UInt16) :
    r.contains a = true ↔ r.start.toNat ≤ a.toNat ∧ a.toNat < r.start.toNat + r.count.toNat := by
  have hc : r.count = 0 ↔ r.count.toNat = 0 := by rw [← UInt16.toNat_inj]; rfl
  simp only [contains, Bool.and_eq_true, bne_iff_ne, ne_eq, decide_eq_true_eq, UInt32.le_iff_toNat_le,
    UInt32.lt_iff_toNat_lt, toNat_endAddress, UInt16.toNat_toUInt32, hc]
  omega

end AddressRange

/-- One downstream endpoint's mapping; ranges at the same table index describe the same payload. -/
structure EndpointRoute where
  endpointId : UInt8
  upstream : Nat → AddressRange
  downstream : Nat → AddressRange

instance : Inhabited EndpointRoute := ⟨⟨0, fun _ => ⟨0, 0⟩, fun _ => ⟨0, 0⟩⟩⟩

inductive RouteTableStatus where
  | valid | nullStorage | rangeOverflow | countMismatch | unsorted | overlap
deriving DecidableEq, Repr

inductive RoutedSpanStatus where
  | complete | empty | addressOverflow | gap
deriving DecidableEq, Repr

structure RouteSegment where
  routeIndex : UInt16 := 0
  endpointId : UInt8 := 0
  upstreamStart : UInt16 := 0
  downstreamStart : UInt16 := 0
  count : UInt16 := 0
  sourceOffset : UInt16 := 0
deriving DecidableEq, Repr

structure RouteCursor where
  table : RegisterTable := .coils
  nextAddress : UInt16 := 0
  remaining : UInt16 := 0
  sourceOffset : UInt16 := 0
deriving DecidableEq, Repr

structure RouteTableView where
  routes : Storage EndpointRoute
  routeCount : UInt16

namespace RouteTableView

/-- `routes_[index]`. -/
def route (v : RouteTableView) (i : Nat) : EndpointRoute := v.routes.at i

/-- `routes_[index].upstream[table]`. -/
def upstream (v : RouteTableView) (table : RegisterTable) (i : Nat) : AddressRange :=
  (v.route i).upstream table.index

def downstream (v : RouteTableView) (table : RegisterTable) (i : Nat) : AddressRange :=
  (v.route i).downstream table.index

/-! ## `validate` -/

/-- What the inner loop of `validate` carries from one route to the next. -/
structure Scan where
  previousStart : UInt32 := 0
  previousPopulatedEnd : UInt32 := 0
  havePreviousRoute : Bool := false
  havePreviousPopulated : Bool := false
deriving DecidableEq, Repr

/-- The body of the inner loop (`RouteTable.h:142-175`); `.error` is an early return. -/
def checkRoute (upstream downstream : AddressRange) (s : Scan) : Except RouteTableStatus Scan :=
  if upstream.count ≠ downstream.count then .error .countMismatch
  else if upstream.endAddress > 0x10000 ∨ downstream.endAddress > 0x10000 then .error .rangeOverflow
  else
    let upstreamStart := upstream.start.toUInt32
    if s.havePreviousRoute ∧ upstreamStart < s.previousStart then .error .unsorted
    else if upstream.count = 0 then
      -- an empty mapping is still a binary-search partition
      if s.havePreviousPopulated ∧ upstreamStart < s.previousPopulatedEnd then .error .unsorted
      else .ok { s with previousStart := upstreamStart, havePreviousRoute := true }
    else if s.havePreviousPopulated ∧ upstreamStart < s.previousPopulatedEnd then .error .overlap
    else .ok ⟨upstreamStart, upstream.endAddress, true, true⟩

/-- One register table, every route in order. -/
def validateTable (v : RouteTableView) (tableIndex : Nat) : Except RouteTableStatus Scan :=
  (List.range v.routeCount.toNat).foldlM
    (fun s i => checkRoute ((v.route i).upstream tableIndex) ((v.route i).downstream tableIndex) s) {}

def validate (v : RouteTableView) : RouteTableStatus :=
  if v.routeCount ≠ 0 ∧ v.routes.isNone then .nullStorage
  else
    match (List.range RegisterTable.count).forM fun t => discard (v.validateTable t) with
    | .error status => status
    | .ok () => .valid

/-! ## `locate` -/

/-- Conversion to `int16_t`. -/
def toInt16 (x : Int) : Int := Int.bmod x 65536

theorem toInt16_of_bounds {x : Int} (h1 : -32768 ≤ x) (h2 : x < 32768) : toInt16 x = x := by
  unfold toInt16
  rw [Int.bmod_eq_of_le] <;> omega

/-- `static_cast<uint16_t>(middle)`. -/
def toIndex (x : Int) : Nat := (x % 65536).toNat

/-- The `while(low <= high)` loop. It is given fuel: past `int16_t` the bounds may wrap and
the loop need not end. -/
def locateLoop (range : Nat → AddressRange) (address : UInt16) : Nat → Int → Int → Option UInt16
  | 0, _, _ => none
  | fuel + 1, low, high =>
    if low ≤ high then
      let middle := toInt16 (low + (high - low) / 2)
      let r := range (toIndex middle)
      let start := r.start.toUInt32
      let «end» := r.endAddress
      if address.toUInt32 < start then locateLoop range address fuel low (toInt16 (middle - 1))
      else if address.toUInt32 ≥ «end» then locateLoop range address fuel (toInt16 (middle + 1)) high
      else if «end» > start then some (UInt16.ofNat (toIndex middle))
      else locateLoop range address fuel (toInt16 (middle + 1)) high
    else none

/-- One unit of fuel for each value an index can take, more than the search of any table
within `int16_t` uses (`SearchRun.exists_run` in `Search.lean`). -/
def locateFuel : Nat := 65536

/-- `locate`: `some` of `routeIndexOut`, or `false`. -/
def locate (v : RouteTableView) (table : RegisterTable) (upstreamAddress : UInt16) : Option UInt16 :=
  if v.routes.isNone then none
  else if table.index ≥ RegisterTable.count then none
  else
    let high := toInt16 (toInt16 v.routeCount.toNat - 1)
    locateLoop (v.upstream table) upstreamAddress locateFuel 0 high

/-! ## Spans -/

/-- The `while(remaining != 0U)` loop of `inspectSpan`. Every turn covers at least one address
(`locate` only returns a route that contains `current`), so `count` turns are enough. -/
def inspectLoop (v : RouteTableView) (table : RegisterTable) : Nat → UInt16 → UInt16 → RoutedSpanStatus
  | 0, _, remaining => if remaining = 0 then .complete else .gap
  | fuel + 1, current, remaining =>
    if remaining = 0 then .complete
    else
      match v.locate table current with
      | none => .gap
      | some routeIndex =>
        let range := v.upstream table routeIndex.toNat
        let available := (range.endAddress - current.toUInt32).toUInt16
        let chunk := if remaining < available then remaining else available
        inspectLoop v table fuel (current + chunk) (remaining - chunk)

def inspectSpan (v : RouteTableView) (table : RegisterTable) (start count : UInt16) : RoutedSpanStatus :=
  if count = 0 then .empty
  else
    let requestedEnd := start.toUInt32 + count.toUInt32
    if requestedEnd > 0x10000 then .addressOverflow
    else v.inspectLoop table count.toNat start count

def beginSpan (v : RouteTableView) (table : RegisterTable) (start count : UInt16) :
    RoutedSpanStatus × RouteCursor :=
  match v.inspectSpan table start count with
  | .complete => (.complete, ⟨table, start, count, 0⟩)
  | status => (status, {})

/-- `next`: the segment (`none` is `false`) and the cursor after the call. -/
def next (v : RouteTableView) (cursor : RouteCursor) : Option RouteSegment × RouteCursor :=
  if cursor.remaining = 0 then (none, cursor)
  else
    match v.locate cursor.table cursor.nextAddress with
    | none => (none, { cursor with remaining := 0 })
    | some routeIndex =>
      let upstream := v.upstream cursor.table routeIndex.toNat
      let downstream := v.downstream cursor.table routeIndex.toNat
      let offset := cursor.nextAddress - upstream.start
      let available := upstream.count - offset
      let chunk := if cursor.remaining < available then cursor.remaining else available
      (some { routeIndex, endpointId := (v.route routeIndex.toNat).endpointId,
              upstreamStart := cursor.nextAddress, downstreamStart := downstream.start + offset,
              count := chunk, sourceOffset := cursor.sourceOffset },
       { cursor with nextAddress := cursor.nextAddress + chunk, remaining := cursor.remaining - chunk,
                     sourceOffset := cursor.sourceOffset + chunk })

end RouteTableView

end ModbusRTUBridge
