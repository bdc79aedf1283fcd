import ModbusRTUBridge.Translation
import ModbusRTUBridge.ImageEffect
import ModbusRTUBridge.Lib.Overlay
import ModbusRTUBridge.Pieces
/-!
# What an admitted write does to the devices

Executing the request of an admitted write deposits one element for each upstream address of its
range, where the route of the address puts it (`Conveys`); so an address that shares its place
in the devices with no other holds what the last write covering it deposited (`held_deposits`).
-/

namespace ModbusRTUBridge

open Overlay

/-! ## Elements -/

/-- The table an element is written in. -/
def Element.table : Element → RegisterTable
  | .coil _ => .coils
  | .register _ => .holdingRegisters

/-- The element types of works, images and devices. -/
class DeviceElement (Value : Type) extends CachedElement Value, StoredElement Value where
  ofElement : Element → Option Value

instance : DeviceElement Bool where
  ofElement
    | .coil v => some v
    | .register _ => none

instance : DeviceElement UInt16 where
  ofElement
    | .coil _ => none
    | .register v => some v

/-- The element of an instance's snapshot that belongs to an upstream address. -/
def Instance.element (i : Instance) (address : Nat) : Element :=
  match i.work with
  | .coils _ => .coil (i.value Bool address)
  | .holding _ => .register (i.value UInt16 address)

theorem Instance.element_table (i : Instance) (address : Nat) : (i.element address).table = i.work.table := by
  unfold Instance.element
  cases i.work <;> rfl

/-- What the proofs use of a device element type. -/
class LawfulDevice (Value : Type) [DeviceElement Value] : Prop where
  ofElement_element : ∀ v : Value, DeviceElement.ofElement (StoredElement.element v) = some v
  ofElement_other : ∀ e : Element, e.table ≠ WorkTraits.table Value → (DeviceElement.ofElement e : Option Value) = none
  element_eq : ∀ (i : Instance) address, i.work.table = WorkTraits.table Value →
    i.element address = StoredElement.element (i.value Value address)
  plannable : ∀ {p : ForwardPlanner} {s : StoreForwardWorkSlot}, s.Ok p → s.table = WorkTraits.table Value →
    p.Plannable (s.asCursor Value).work ∧ ForwardPlanner.Position (s.asCursor Value)
  next_cursor : ∀ {p : ForwardPlanner} {s s' : StoreForwardWorkSlot} {mem sequence w}, s.table = WorkTraits.table Value →
    s.next mem p sequence = (.planned, s', w) → p.next mem (s.asCursor Value) sequence = (.planned, s'.asCursor Value, w)

instance : LawfulDevice Bool where
  ofElement_element _ := rfl
  ofElement_other e h := by
    cases e with
    | coil v => exact absurd rfl h
    | register v => rfl
  element_eq i address h := by
    unfold Instance.element
    cases hw : i.work with
    | coils work => rfl
    | holding work => rw [hw] at h; cases h
  plannable h ht := by
    rcases h.plannable with ⟨_, hw⟩ | ⟨ht', _⟩
    · exact ⟨hw, h.position⟩
    · rw [ht'] at ht; cases ht
  next_cursor ht hn := StoreForwardWorkSlot.next_coils ht hn

instance : LawfulDevice UInt16 where
  ofElement_element _ := rfl
  ofElement_other e h := by
    cases e with
    | coil v => rfl
    | register v => exact absurd rfl h
  element_eq i address h := by
    unfold Instance.element
    cases hw : i.work with
    | coils work => rw [hw] at h; cases h
    | holding work => rfl
  plannable h ht := by
    rcases h.plannable with ⟨ht', _⟩ | ⟨_, hw⟩
    · rw [ht'] at ht; cases ht
    · exact ⟨hw, h.position_holding⟩
  next_cursor ht hn := StoreForwardWorkSlot.next_holding ht hn

/-! ## Places -/

/-- A routed address lies within the applied image. -/
theorem RouteTableView.Owns.within {v : RouteTableView} {t : RegisterTable} {address route : Nat} (h : v.Owns t address route)
    {Value : Type} {cache : DesiredAppliedCache Value} (hfit : cache.Fits v t) : address < cache.applied.count.toNat := by
  have hstop := h.lt_stop
  have hstart := h.start_le
  rcases hfit.covers route h.route with h0 | hle
  · simp only [AddressRange.stop, h0, UInt16.toNat_zero] at hstop
    omega
  · omega

namespace RouteTableView

/-- Where route `r` puts an upstream address: the endpoint, and the address there. -/
def place (v : RouteTableView) (t : RegisterTable) (r address : Nat) : UInt8 × Nat :=
  ((v.route r).endpointId, (v.downstream t r).start.toNat + (address - (v.upstream t r).start.toNat))

/-- No other upstream address is put where this one is. -/
def Alone (v : RouteTableView) (t : RegisterTable) (address : Nat) : Prop :=
  ∀ r address' r', v.Owns t address r → v.Owns t address' r' → v.place t r' address' = v.place t r address →
    address' = address

end RouteTableView

/-- The place of an element stored. -/
def ElementWrite.place (x : ElementWrite) : UInt8 × Nat := (x.endpointId, x.address)

/-- What a place holds after some writes: the last element of the type stored there. -/
def held (Value : Type) [DeviceElement Value] (xs : List ElementWrite) (place : UInt8 × Nat) (initial : Value) : Value :=
  overlay (fun x => if x.place = place then DeviceElement.ofElement x.element else none) xs initial

theorem held_append {Value : Type} [DeviceElement Value] {xs ys : List ElementWrite} {place : UInt8 × Nat} {initial : Value} :
    held Value (xs ++ ys) place initial = held Value ys place (held Value xs place initial) := overlay_append

/-! ## What a write conveys -/

/-- The elements write `w` carries of instance `i`. -/
def Instance.deposits (i : Instance) (w : PlannedWriteRequest) : List ElementWrite :=
  (List.range w.quantity.toNat).map fun j =>
    ⟨w.endpointId, w.downstreamStart.toNat + j, i.element (w.upstreamStart.toNat + j)⟩

/-- The retained action `a` writes a slice of instance `i`; executed, it deposits the elements of the
slice, each where its route puts it. -/
structure Conveys (p : ForwardPlanner) (i : Instance) (a : StoreForwardAction) : Prop where
  slice : Slice i a.write
  placed : ∀ j < a.write.quantity.toNat, ∃ r, p.routes.Owns i.work.table (a.write.upstreamStart.toNat + j) r ∧
    (a.write.endpointId, a.write.downstreamStart.toNat + j) = p.routes.place i.work.table r (a.write.upstreamStart.toNat + j)
  stores : ∀ {σ Result : Type} {backend : Backend σ Result} {mem : Memory} {written : σ → List ElementWrite},
    backend.Stores mem written → i.work.SameCells mem i.memory → ∀ s,
    written (executeDownstreamRequest backend a.downstream s).2 = written s ++ i.deposits a.write

section
variable {Value : Type} [DeviceElement Value] [LawfulElement Value] [LawfulDevice Value] [LawfulPayload Value]
  [LawfulStored Value] {p : ForwardPlanner} {i : Instance} {w : PlannedWriteRequest}

omit [LawfulStored Value] [LawfulPayload Value] in
/-- In a memory that kept the snapshot the elements of a slice are the instance's. -/
theorem Slice.elements_eq (h : Slice i w) (ht : i.work.table = WorkTraits.table Value) {mem : Memory}
    (hcells : i.work.SameCells mem i.memory) : w.elements Value mem = i.deposits w := by
  refine List.map_congr_left fun j hj => ?_
  have hlt : j < w.quantity.toNat := List.mem_range.1 hj
  have hload := h.load (@LawfulElement.cells Value _ _ i.work mem i.memory ht hcells)
    (k := w.upstreamStart.toNat + j) (by omega) (by omega)
  rw [Nat.add_sub_cancel_left] at hload
  rw [@LawfulDevice.element_eq Value _ _ i _ ht, LawfulElement.payload w (h.table.trans ht), hload]

omit [LawfulElement Value] [LawfulStored Value] [LawfulPayload Value] in
/-- **The deposits of a write** replace what the places of its range held, and nothing else. -/
theorem Conveys.held_deposits {a : StoreForwardAction} (h : Conveys p i a) {address r : Nat}
    (hown : p.routes.Owns (WorkTraits.table Value) address r) (halone : p.routes.Alone (WorkTraits.table Value) address)
    (v : Value) : held Value (i.deposits a.write) (p.routes.place (WorkTraits.table Value) r address) v =
      if a.write.Covers (WorkTraits.table Value) address then i.value Value address else v := by
  have htable := h.slice.table
  by_cases ht : i.work.table = WorkTraits.table Value
  · -- an element stored at the place is that of the address
    have hindex : ∀ j < a.write.quantity.toNat,
        (a.write.endpointId, a.write.downstreamStart.toNat + j) = p.routes.place (WorkTraits.table Value) r address →
        a.write.upstreamStart.toNat + j = address := by
      intro j hj he
      obtain ⟨r', hown', hplace⟩ := h.placed j hj
      rw [ht] at hown' hplace
      exact halone r _ r' hown hown' (hplace.symm.trans he)
    by_cases hcov : a.write.Covers (WorkTraits.table Value) address
    · obtain ⟨_, hlo, hhi⟩ := hcov
      rw [if_pos ⟨htable.trans ht, hlo, hhi⟩]
      refine overlay_agree (fun x hx u hu => ?_) ?_
      · obtain ⟨j, hj, rfl⟩ := List.mem_map.1 hx
        simp only [Option.ite_none_right_eq_some] at hu
        obtain ⟨hplace, hu⟩ := hu
        rw [hindex j (List.mem_range.1 hj) hplace, LawfulDevice.element_eq i _ ht, LawfulDevice.ofElement_element] at hu
        exact (Option.some.inj hu).symm
      · obtain ⟨r', hown', hplace⟩ := h.placed (address - a.write.upstreamStart.toNat) (by omega)
        rw [Nat.add_sub_cancel' hlo, ht] at hown' hplace
        obtain rfl := hown.unique r' hown'.route hown'.start_le hown'.lt_stop
        refine ⟨_, List.mem_map_of_mem (List.mem_range.2 (show address - a.write.upstreamStart.toNat < _ by omega)), ?_⟩
        simp only [ElementWrite.place, hplace, if_true, Nat.add_sub_cancel' hlo,
          LawfulDevice.element_eq i _ ht, LawfulDevice.ofElement_element]
        exact Option.some_ne_none _
    · rw [if_neg hcov]
      refine overlay_clear fun x hx => ?_
      obtain ⟨j, hj, rfl⟩ := List.mem_map.1 hx
      have hlt := List.mem_range.1 hj
      refine if_neg fun hplace => hcov ?_
      have haddress := hindex j hlt hplace
      exact ⟨htable.trans ht, by omega, by omega⟩
  · rw [if_neg fun hcov => ht (htable.symm.trans hcov.1)]
    refine overlay_clear fun x hx => ?_
    obtain ⟨j, _, rfl⟩ := List.mem_map.1 hx
    rw [LawfulDevice.ofElement_other _ (by rw [Instance.element_table]; exact ht)]
    exact ite_self _

variable (Value) in
/-- **A write taken from the front work conveys** the next elements of its instance. -/
theorem Conveys.of_next {a : StoreForwardAction} {s : StoreForwardWorkSlot} {mem : Memory} {ctx : Ptr} (hp : p.RoutesOk)
    (hsame : SameWork s i.slot) (hok : s.Ok p) (hr : s.remaining ≠ 0) (ht : s.table = WorkTraits.table Value)
    (hcells : i.work.SameCells mem i.memory) (hseq : a.sequence ≠ 0)
    (hn : s.next mem p a.sequence = (.planned, s.advance a.write.quantity, a.write)) (htakes : s.Takes a.write a.sequence)
    (hdown : a.downstream = downstreamRequestFor a.write ctx) : Conveys p i a := by
  have hslice : Slice i a.write := .of_takes hsame hok hr htakes
  have hitable : i.work.table = WorkTraits.table Value := hslice.table.symm.trans (htakes.table.trans ht)
  obtain ⟨hw, hposition⟩ := LawfulDevice.plannable hok ht
  -- in every memory that kept the snapshot it is the same fragment
  have hfragment : ∀ mem', i.work.SameCells mem' i.memory → ∃ r,
      p.Fragment (s.asCursor Value) r (p.fragmentSize (s.asCursor Value) r) ∧
      a.write = ForwardPlanner.fragmentRequest mem' p (s.asCursor Value) r (p.fragmentSize (s.asCursor Value) r)
        a.sequence := by
    intro mem' hcells'
    rw [hsame.next_congr hok hcells, ← hsame.next_congr hok hcells'] at hn
    have hcursor := LawfulDevice.next_cursor ht hn
    obtain ⟨r, hf, hplanned⟩ := ForwardPlanner.next_planned hp hw hposition hr mem' hseq
    rw [hplanned] at hcursor
    exact ⟨r, hf, (congrArg (fun x => x.2.2) hcursor).symm⟩
  refine ⟨hslice, ?_, ?_⟩
  · obtain ⟨r, hf, hwrite⟩ := hfragment mem hcells
    intro j hj
    have hget : (a.write.elements Value mem)[j]? = some ⟨a.write.endpointId, a.write.downstreamStart.toNat + j,
        StoredElement.element (MemoryCell.load mem ((AppliedPayload.values Value a.write).add j) : Value)⟩ := by
      simp [PlannedWriteRequest.elements, hj]
    rw [hwrite] at hget
    obtain ⟨r', hown, _, hx⟩ := hf.translated hp hw hposition hr a.sequence j _ hget
    rw [← hwrite, ElementWrite.mk.injEq] at hx
    obtain ⟨hendpoint, haddress, _⟩ := hx
    have hstart : a.write.upstreamStart.toNat + j = s.upstreamStart.toNat + (s.sourceOffset.toNat + j) := by
      have hfirst := hslice.start
      have hwork := hsame.start
      rw [htakes.sourceOffset] at hfirst
      simp only [Instance.slot, Ingress.slot_upstreamStart] at hwork
      rw [hwork]
      omega
    rw [hitable, hstart]
    exact ⟨r', hown, Prod.ext hendpoint haddress⟩
  · intro σ Result backend mem' written hb hcells' st
    obtain ⟨r, hf, hwrite⟩ := hfragment mem' hcells'
    have hexec := (hf.executes hw hb ctx a.sequence).stored st
    rw [← hwrite, ← hdown, hslice.elements_eq hitable hcells'] at hexec
    exact hexec

end

end ModbusRTUBridge
