import ModbusRTUBridge.CachedBridge
/-!
# Fragments as slices of their work

The range and the pointer of a fragment are those of its work, shifted alike; so what a list of
fragments completed as applied carries for an address is what the snapshots of their works held
at admission.
-/

namespace ModbusRTUBridge

variable {p : ForwardPlanner} {w : PlannedWriteRequest}

/-! ## Slices -/

/-- `w` is a slice of the instance's work: its range and its pointer are shifted alike. -/
structure Slice (i : Instance) (w : PlannedWriteRequest) : Prop where
  table : w.table = i.work.table
  start : w.upstreamStart.toNat = i.work.start.toNat + w.sourceOffset.toNat
  within : w.sourceOffset.toNat + w.quantity.toNat ≤ i.work.count.toNat
  pos : 0 < w.quantity.toNat
  payload : w.payload = i.work.snapshot.add w.sourceOffset.toNat

section
variable {i : Instance} {s : StoreForwardWorkSlot} {sequence : UInt32} {a : StoreForwardAction}

theorem Slice.of_takes (hsame : SameWork s i.slot) (hok : s.Ok p) (hr : s.remaining ≠ 0) (ht : s.Takes w sequence) :
    Slice i w := by
  have hsplit := hok.split
  have hle := ht.le_remaining
  have htable := hsame.table
  have hstart := hsame.start
  have hquantity := hsame.quantity
  have hsnapshot := hsame.snapshot
  simp only [Instance.slot, Ingress.slot_table, Ingress.slot_upstreamStart, Ingress.slot_quantity,
    Ingress.slot_snapshot] at htable hstart hquantity hsnapshot
  rw [hquantity] at hsplit
  refine ⟨ht.table.trans htable, ?_, ?_, ht.pos, ?_⟩
  · rw [ht.upstreamStart, hok.toNat_nextAddress hr, ht.sourceOffset, hstart]
  · rw [ht.sourceOffset]
    omega
  · rw [ht.payload_eq, ht.sourceOffset, hsnapshot]

theorem Slice.of_issued (hsame : SameWork s i.slot) (h : s.Issued p a) : Slice i a.write := by
  obtain ⟨s', hok, hr, ht, _, rfl, _⟩ := h
  exact .of_takes (s := s') ⟨hsame.table, hsame.identity, hsame.start, hsame.quantity, hsame.delivery, hsame.snapshot,
    hsame.context⟩ hok hr ht

/-- The element a slice carries for an address is the work's. -/
theorem Slice.load {Value : Type} [MemoryCell Value] (h : Slice i w) {mem : Memory} {k : Nat}
    (hcells : ∀ j < i.work.count.toNat, (MemoryCell.load mem (i.work.snapshot.add j) : Value) =
      MemoryCell.load i.memory (i.work.snapshot.add j))
    (hlo : w.upstreamStart.toNat ≤ k) (hhi : k < w.upstreamStart.toNat + w.quantity.toNat) :
    MemoryCell.load mem (w.payload.add (k - w.upstreamStart.toNat)) = i.value Value k := by
  have hstart := h.start
  have hwithin := h.within
  rw [h.payload, Ptr.add_add, show w.sourceOffset.toNat + (k - w.upstreamStart.toNat) = k - i.work.start.toNat by omega]
  exact hcells _ (by omega)

/-- The fragments sent reach as far as the slot has moved. -/
theorem Sent.reach {ws : List PlannedWriteRequest} (h : Sent p i.slot ws s) (hf : i.slot.Fresh) {k : Nat}
    (hlo : i.work.start.toNat ≤ k) (hhi : k < i.work.start.toNat + s.sourceOffset.toNat) :
    ∃ w ∈ ws, w.Covers i.work.table k := by
  induction h with
  | none =>
    rw [hf.sourceOffset] at hhi
    simp only [UInt16.toNat_zero] at hhi
    omega
  | @next ws s w sequence h hok hr ht hs ih =>
    by_cases hk : k < i.work.start.toNat + s.sourceOffset.toNat
    · obtain ⟨w', hw', hcov⟩ := ih hk
      exact ⟨w', List.mem_append_left _ hw', hcov⟩
    · have hslice := Slice.of_takes (i := i) h.sameWork hok hr ht
      have hstart := hslice.start
      have hwithin := hslice.within
      have hcount := i.work.count.toNat_lt
      have hadd : (s.sourceOffset + w.quantity).toNat = s.sourceOffset.toNat + w.quantity.toNat := by
        rw [UInt16.toNat_add, ← ht.sourceOffset]
        omega
      change k < i.work.start.toNat + (s.sourceOffset + w.quantity).toNat at hhi
      rw [ht.sourceOffset] at hstart
      exact ⟨w, by simp, hslice.table, by omega, by omega⟩

end

/-- The range of an admitted work is routed. -/
theorem Instance.Admitted.routed {i : Instance} (hi : i.Admitted p) (hp : p.RoutesOk) :
    i.work.table.index < RegisterTable.count ∧ i.work.count ≠ 0 ∧
    i.work.start.toNat + i.work.count.toNat ≤ 65536 ∧
    p.routes.Routed i.work.table i.work.start.toNat i.work.count.toNat := by
  have hready := hi.ready
  cases hw : i.work with
  | coils work =>
    rw [hw] at hready
    have h := ForwardPlanner.begin_ready hp hready
    exact ⟨show RegisterTable.coils.index < RegisterTable.count by decide, h.count_ne, h.range_le, h.routed⟩
  | holding work =>
    rw [hw] at hready
    have h := ForwardPlanner.begin_ready hp hready
    exact ⟨show RegisterTable.holdingRegisters.index < RegisterTable.count by decide, h.count_ne, h.range_le, h.routed⟩

/-- It lies within the applied image. -/
theorem Instance.Admitted.within_image {i : Instance} (hi : i.Admitted p) (hp : p.RoutesOk) {Value : Type}
    {cache : DesiredAppliedCache Value} (hfit : cache.Fits p.routes i.work.table) :
    i.work.start.toNat + i.work.count.toNat ≤ cache.applied.count.toNat := by
  obtain ⟨hindex, hne, hrange, hrouted⟩ := hi.routed hp
  have hpos : 0 < i.work.count.toNat := toNat_pos.2 hne
  -- the last address of the range is routed, and its route ends within the image
  obtain ⟨last, hlast⟩ : ∃ last : UInt16, last.toNat = i.work.start.toNat + i.work.count.toNat - 1 :=
    ⟨.ofNat (i.work.start.toNat + i.work.count.toNat - 1), by rw [UInt16.toNat_ofNat']; omega⟩
  obtain ⟨r, hr⟩ := hrouted last (by omega) (by omega)
  obtain ⟨⟨hlt, hcontains⟩, _⟩ := RouteTableView.maps_of_locate hp.valid hp.small hr
  obtain ⟨hlo, hhi⟩ := (AddressRange.contains_iff _ _).1 hcontains
  rcases hfit.covers r.toNat hlt with h0 | hle
  · rw [h0] at hhi
    simp only [UInt16.toNat_zero] at hhi
    omega
  · simp only [AddressRange.stop] at hle
    omega

/-! ## Pieces -/

section
variable {Value : Type} [WorkTraits Value] {xs ys : List Piece} {k : Nat} {v initial : Value}

theorem carried_append : carried Value (xs ++ ys) k initial = carried Value ys k (carried Value xs k initial) :=
  List.foldl_append

/-- Pieces that do not cover an address do not matter. -/
theorem carried_other (h : ∀ x ∈ ys, ¬ x.2.Covers (WorkTraits.table Value) k) : carried Value ys k initial = initial := by
  induction ys generalizing initial with
  | nil => rfl
  | cons y ys ih =>
    show carried Value ys k (if _ then _ else _) = _
    rw [if_neg (h y List.mem_cons_self)]
    exact ih fun x hx => h x (List.mem_cons_of_mem _ hx)

/-- Pieces that agree on the value carry it, as soon as one of them covers the address. -/
theorem carried_agree (h : ∀ x ∈ ys, x.1.value Value k = v) (hc : ∃ x ∈ ys, x.2.Covers (WorkTraits.table Value) k) :
    carried Value ys k initial = v := by
  induction ys generalizing initial with
  | nil =>
    obtain ⟨x, hx, _⟩ := hc
    cases hx
  | cons y ys ih =>
    have hrest := fun x hx => h x (List.mem_cons_of_mem _ hx)
    by_cases hlater : ∃ x ∈ ys, x.2.Covers (WorkTraits.table Value) k
    · exact ih hrest hlater
    · obtain ⟨x, hx, hcov⟩ := hc
      obtain rfl : x = y := (List.mem_cons.1 hx).resolve_right fun hx => hlater ⟨x, hx, hcov⟩
      show carried Value ys k (if _ then _ else _) = v
      rw [if_pos hcov, carried_other fun x hx hcov => hlater ⟨x, hx, hcov⟩]
      exact h x List.mem_cons_self

end

end ModbusRTUBridge
