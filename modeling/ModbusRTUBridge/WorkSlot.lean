import ModbusRTUBridge.Fragments
import ModbusRTUBridge.StoreForwardBridge
/-!
# Queued works

A work slot holds its cursor flattened and its element type erased. `StoreForwardWorkSlot.next`
is the planner's `next` on whichever cursor the slot's table selects; on a slot the bridge
queued (`Ok`) with something left to send it takes the next fragment (`Takes`).
-/

namespace ModbusRTUBridge

/-- The borrowed payload of a request, by its table. -/
def PlannedWriteRequest.payload (w : PlannedWriteRequest) : Ptr :=
  match w.table with
  | .coils => w.coilValues
  | _ => w.holdingValues

namespace StoreForwardWorkSlot

open ForwardPlanner (Position RoutesOk)

/-- What holds of every slot in the queue. -/
structure Ok (p : ForwardPlanner) (s : StoreForwardWorkSlot) : Prop where
  identity : s.workIdentity.valid = true
  position : Position (s.asCursor Bool)
  plannable : s.table = .coils ∧ p.Plannable (s.asCursor Bool).work ∨
    s.table = .holdingRegisters ∧ p.Plannable (s.asCursor UInt16).work

/-- The planner's `next` on the slot's own cursor. -/
def next (mem : Memory) (p : ForwardPlanner) (s : StoreForwardWorkSlot) (sequence : UInt32) :
    ForwardNextStatus × StoreForwardWorkSlot × PlannedWriteRequest :=
  match s.table with
  | .coils =>
    let (status, cursor, request) := p.next mem (s.asCursor Bool) sequence
    (status, s.updateFrom cursor, request)
  | .holdingRegisters =>
    let (status, cursor, request) := p.next mem (s.asCursor UInt16) sequence
    (status, s.updateFrom cursor, request)
  | _ => (.topologyChanged, s, {})

/-- The slot past a fragment of `q` elements. -/
def advance (s : StoreForwardWorkSlot) (q : UInt16) : StoreForwardWorkSlot :=
  { s with
    nextAddress := s.nextAddress + q
    remaining := s.remaining - q
    sourceOffset := s.sourceOffset + q
    fragmentIndex := s.fragmentIndex + 1
    active := if s.remaining - q = 0 then false else s.active }

/-- `w` is the next fragment of slot `s`. -/
structure Takes (s : StoreForwardWorkSlot) (w : PlannedWriteRequest) (sequence : UInt32) : Prop where
  identity : w.identity = ⟨s.workIdentity, sequence, s.fragmentIndex⟩
  delivery : w.delivery = s.workDelivery
  table : w.table = s.table
  upstreamStart : w.upstreamStart = s.nextAddress
  sourceOffset : w.sourceOffset = s.sourceOffset
  coilValues : w.coilValues = if s.table = .coils then s.snapshot.add s.sourceOffset.toNat else .null
  holdingValues : w.holdingValues = if s.table = .coils then .null else s.snapshot.add s.sourceOffset.toNat
  pos : 0 < w.quantity.toNat
  le_remaining : w.quantity.toNat ≤ s.remaining.toNat
  final_iff : w.finalFragment = true ↔ s.remaining = w.quantity

variable {p : ForwardPlanner} {s s' : StoreForwardWorkSlot} {mem : Memory} {w : PlannedWriteRequest}
  {sequence : UInt32}

theorem Takes.payload_eq (h : Takes s w sequence) : w.payload = s.snapshot.add s.sourceOffset.toNat := by
  have hc := h.coilValues
  have hh := h.holdingValues
  rw [← h.table] at hc hh
  unfold PlannedWriteRequest.payload
  cases ht : w.table <;> simp_all

theorem Ok.position_holding (h : s.Ok p) : Position (s.asCursor UInt16) :=
  ⟨h.position.split, h.position.address, h.position.index_le, h.position.active_iff⟩

theorem Ok.accepted (h : s.Ok p) : isAccepted s.workDelivery = true := by
  rcases h.plannable with ⟨_, hw⟩ | ⟨_, hw⟩ <;> exact hw.accepted

theorem Ok.range_le (h : s.Ok p) : s.upstreamStart.toNat + s.quantity.toNat ≤ 65536 := by
  rcases h.plannable with ⟨_, hw⟩ | ⟨_, hw⟩ <;> exact hw.range_le

theorem Ok.snapshot_ne (h : s.Ok p) : s.snapshot ≠ .null := by
  rcases h.plannable with ⟨_, hw⟩ | ⟨_, hw⟩ <;> exact hw.snapshot_ne

theorem Ok.split (h : s.Ok p) : s.sourceOffset.toNat + s.remaining.toNat = s.quantity.toNat := h.position.split

theorem Ok.index_le (h : s.Ok p) : s.fragmentIndex.toNat ≤ s.sourceOffset.toNat := h.position.index_le

theorem Ok.active_iff (h : s.Ok p) : s.active = true ↔ s.remaining ≠ 0 := h.position.active_iff

theorem Ok.toNat_nextAddress (h : s.Ok p) (hr : s.remaining ≠ 0) :
    s.nextAddress.toNat = s.upstreamStart.toNat + s.sourceOffset.toNat := by
  rcases h.plannable with ⟨_, hw⟩ | ⟨_, hw⟩
  · exact h.position.toNat_nextAddress hw.range_le hr
  · exact h.position_holding.toNat_nextAddress hw.range_le hr

/-- With a fragment left the index is below its limit. -/
theorem Ok.index_lt (h : s.Ok p) (hr : s.remaining ≠ 0) : s.fragmentIndex.toNat < 65535 := by
  have h1 := h.split
  have h2 := h.index_le
  have h3 : 0 < s.remaining.toNat := toNat_pos.2 hr
  have h4 := s.quantity.toNat_lt
  omega

theorem Ok.index_ne_last (h : s.Ok p) (hr : s.remaining ≠ 0) : s.fragmentIndex ≠ 0xFFFF := by
  intro e
  have hlt := h.index_lt hr
  rw [e] at hlt
  simp at hlt

/-- A slot moved within its own work keeps what the planner needs. -/
theorem Ok.advance (h : s.Ok p) (hr : s.remaining ≠ 0) {q : UInt16} (h0 : 0 < q.toNat)
    (hq : q.toNat ≤ s.remaining.toNat) : (s.advance q).Ok p :=
  ⟨h.identity, ForwardPlanner.advance_position h.position hr h0 hq, h.plannable⟩

/-! ## Fresh slots -/

section
variable {ctx : Ptr}

theorem asCursor_ofWork {Value : Type} [WorkTraits Value] (ctx : Ptr) {work : IngressWorkView Value}
    (h : work.snapshot.count = work.count) :
    (ofWork work (ForwardPlanner.startCursor work) ctx).asCursor Value = ForwardPlanner.startCursor work := by
  obtain ⟨id, start, count, delivery, ⟨values, n⟩⟩ := work
  simp only at h
  subst h
  rfl

theorem ok_ofCoils {work : CoilIngressWorkView} (hid : work.identity.valid = true) (hw : p.Plannable work) :
    (ofWork work (ForwardPlanner.startCursor work) ctx).Ok p := by
  have heq := asCursor_ofWork ctx hw.snapshot_count
  refine ⟨hid, heq ▸ ForwardPlanner.startCursor_position hw.count_ne, Or.inl ⟨rfl, ?_⟩⟩
  rw [heq]
  exact hw

theorem ok_ofHolding {work : HoldingIngressWorkView} (hid : work.identity.valid = true) (hw : p.Plannable work) :
    (ofWork work (ForwardPlanner.startCursor work) ctx).Ok p := by
  have heq := asCursor_ofWork ctx hw.snapshot_count
  have hpos := ForwardPlanner.startCursor_position hw.count_ne
  refine ⟨hid, ⟨hpos.split, hpos.address, hpos.index_le, hpos.active_iff⟩, Or.inr ⟨rfl, ?_⟩⟩
  rw [heq]
  exact hw

end

/-! ## The next fragment -/

theorem takes_of_fragment (mem : Memory) {Value : Type} [AppliedPayload Value] [LawfulPayload Value] {r : UInt16}
    (ht : s.table = WorkTraits.table Value) (hf : p.Fragment (s.asCursor Value) r (p.fragmentSize (s.asCursor Value) r)) :
    Takes s (ForwardPlanner.fragmentRequest mem p (s.asCursor Value) r (p.fragmentSize (s.asCursor Value) r) sequence)
      sequence := by
  obtain ⟨h1, h2, h3, h4, h5, h6, h7, _⟩ :=
    ForwardPlanner.fragmentRequest_fields mem p (s.asCursor Value) r (p.fragmentSize (s.asCursor Value) r) sequence
  obtain ⟨hc, hh⟩ :=
    ForwardPlanner.fragmentRequest_pointers mem p (s.asCursor Value) r (p.fragmentSize (s.asCursor Value) r) sequence
  refine ⟨h1, h2, h3.trans ht.symm, h4, h6, ht ▸ hc, ht ▸ hh, ?_, ?_, ?_⟩
  · rw [h5]; exact hf.pos
  · rw [h5]; exact hf.le_remaining
  · rw [h7, h5, beq_iff_eq]; rfl

/-- **The front of the queue always has a next fragment** while something is left to send. -/
theorem next_spec (hp : p.RoutesOk) (h : s.Ok p) (hr : s.remaining ≠ 0) (mem : Memory) (hs : sequence ≠ 0) :
    ∃ w, s.next mem p sequence = (.planned, s.advance w.quantity, w) ∧ Takes s w sequence ∧ (s.advance w.quantity).Ok p := by
  rcases h.plannable with ⟨ht, hw⟩ | ⟨ht, hw⟩
  · obtain ⟨r, hf, hn⟩ := ForwardPlanner.next_planned hp hw h.position hr mem hs
    have htakes : Takes s _ sequence := takes_of_fragment mem ht hf
    refine ⟨_, ?_, htakes, h.advance hr htakes.pos htakes.le_remaining⟩
    rw [(ForwardPlanner.fragmentRequest_fields mem p (s.asCursor Bool) r _ sequence).2.2.2.2.1]
    simp only [next, ht, hn]
    rfl
  · obtain ⟨r, hf, hn⟩ := ForwardPlanner.next_planned hp hw h.position_holding hr mem hs
    have htakes : Takes s _ sequence := takes_of_fragment mem ht hf
    refine ⟨_, ?_, htakes, h.advance hr htakes.pos htakes.le_remaining⟩
    rw [(ForwardPlanner.fragmentRequest_fields mem p (s.asCursor UInt16) r _ sequence).2.2.2.2.1]
    simp only [next, ht, hn]
    rfl

/-- Two memories that agree on the next cell of the snapshot plan the same fragment. -/
theorem next_congr (mem mem' : Memory) (h : s.Ok p)
    (hmem : ∀ j < s.quantity.toNat, (s.table = .coils → mem.coil (s.snapshot.add j) = mem'.coil (s.snapshot.add j)) ∧
      (s.table = .holdingRegisters → mem.holding (s.snapshot.add j) = mem'.holding (s.snapshot.add j))) :
    s.next mem p sequence = s.next mem' p sequence := by
  have hlt : s.remaining ≠ 0 → s.sourceOffset.toNat < s.quantity.toNat := by
    intro hr
    have h1 := h.split
    have h2 : 0 < s.remaining.toNat := toNat_pos.2 hr
    omega
  rcases h.plannable with ⟨ht, _⟩ | ⟨ht, _⟩
  · have hb := ForwardPlanner.next_congr (p := p) (c := s.asCursor Bool) (fun hr => (hmem _ (hlt hr)).1 ht) sequence
    simp only [next, ht, hb]
  · have hb := ForwardPlanner.next_congr (p := p) (c := s.asCursor UInt16) (fun hr => (hmem _ (hlt hr)).2 ht) sequence
    simp only [next, ht, hb]

end StoreForwardWorkSlot

end ModbusRTUBridge
