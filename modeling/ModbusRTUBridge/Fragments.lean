import ModbusRTUBridge.CompletionTransition
import ModbusRTUBridge.Locate
/-!
# The fragments of a planned work

`begin` returns `Ready` only for a work whose whole range is routed (`Plannable`). From such a
work `next` never fails: each call hands out one fragment, at least one element long, within
one route and one limit, and the cursor stays a position in the work's range (`Position`).
`replay` is the planner driven by a list of request sequences.
-/

namespace ModbusRTUBridge

/-! ## Both element types -/

/-- What the planner's proofs use of a payload: it fills in the payload fields only, from the
first element and the pointer. -/
class LawfulPayload (Value : Type) [AppliedPayload Value] : Prop where
  keeps : ∀ (mem : Memory) (p : Ptr) (q : UInt16) (r : PlannedWriteRequest),
    WorkTraits.populatePayload Value mem p q r =
      { r with
        operation := (WorkTraits.populatePayload Value mem p q r).operation
        coilValues := (WorkTraits.populatePayload Value mem p q r).coilValues
        holdingValues := (WorkTraits.populatePayload Value mem p q r).holdingValues
        coilValue := (WorkTraits.populatePayload Value mem p q r).coilValue
        holdingValue := (WorkTraits.populatePayload Value mem p q r).holdingValue }
  values : ∀ (mem : Memory) (p : Ptr) (q : UInt16) (r : PlannedWriteRequest),
    AppliedPayload.values Value (WorkTraits.populatePayload Value mem p q r) = p
  pointers : ∀ (mem : Memory) (p : Ptr) (q : UInt16) (r : PlannedWriteRequest),
    (WorkTraits.populatePayload Value mem p q r).coilValues =
      (if WorkTraits.table Value = .coils then p else r.coilValues) ∧
    (WorkTraits.populatePayload Value mem p q r).holdingValues =
      (if WorkTraits.table Value = .coils then r.holdingValues else p)
  congr : ∀ (mem mem' : Memory) (p : Ptr) (q : UInt16) (r : PlannedWriteRequest),
    (MemoryCell.load mem p : Value) = MemoryCell.load mem' p →
    WorkTraits.populatePayload Value mem p q r = WorkTraits.populatePayload Value mem' p q r
  table_index : (WorkTraits.table Value).index < RegisterTable.count

instance : LawfulPayload Bool where
  keeps _ _ _ _ := rfl
  values _ _ _ _ := rfl
  pointers _ _ _ _ := ⟨rfl, rfl⟩
  congr _ _ _ _ _ h := by simp only [WorkTraits.populatePayload]; congr 1
  table_index := by decide

instance : LawfulPayload UInt16 where
  keeps _ _ _ _ := rfl
  values _ _ _ _ := rfl
  pointers _ _ _ _ := ⟨rfl, rfl⟩
  congr _ _ _ _ _ h := by simp only [WorkTraits.populatePayload]; congr 1
  table_index := by decide

namespace ForwardPlanner

variable {Value : Type} [AppliedPayload Value]

/-! ## What `begin` establishes -/

/-- A work all of whose range can be planned. -/
structure Plannable (p : ForwardPlanner) (work : IngressWorkView Value) : Prop where
  accepted : isAccepted work.delivery = true
  count_ne : work.count ≠ 0
  range_le : work.start.toNat + work.count.toNat ≤ 65536
  snapshot_ne : work.snapshot.values ≠ .null
  snapshot_count : work.snapshot.count = work.count
  limit_ne : WorkTraits.maxQuantity Value p.options ≠ 0
  routed : p.routes.Routed (WorkTraits.table Value) work.start.toNat work.count.toNat

/-- A route table the searches are correct on. -/
structure RoutesOk (p : ForwardPlanner) : Prop where
  valid : p.routes.validate = .valid
  small : p.routes.routeCount.toNat ≤ 32767

/-- A cursor part of the way through its work. -/
structure Position (c : ForwardCursor Value) : Prop where
  split : c.sourceOffset.toNat + c.remaining.toNat = c.work.count.toNat
  address : c.nextAddress = c.work.start + c.sourceOffset
  index_le : c.fragmentIndex.toNat ≤ c.sourceOffset.toNat
  active_iff : c.active = true ↔ c.remaining ≠ 0

variable {p : ForwardPlanner} {work : IngressWorkView Value} {c : ForwardCursor Value} {mem : Memory}

omit [AppliedPayload Value] in
theorem Position.inactive (h : Position c) (hr : c.remaining = 0) : c.active = false := by
  rw [Bool.eq_false_iff, ne_eq, h.active_iff]
  exact fun hne => hne hr

theorem begin_status_cursor (p : ForwardPlanner) (work : IngressWorkView Value) :
    (p.begin work).2 = if (p.begin work).1 = .ready then startCursor work else {} := by
  have hmap : ∀ s, s ≠ RoutedSpanStatus.complete → mapSpanStatus s ≠ .ready := by
    intro s hs
    cases s <;> first | exact absurd rfl hs | decide
  unfold begin
  simp only
  repeat' split
  all_goals simp_all

/-- What a `Ready` says of the work, whatever the routes. -/
theorem begin_accepts (h : (p.begin work).1 = .ready) : isAccepted work.delivery = true ∧ work.count ≠ 0 ∧
    work.start.toNat + work.count.toNat ≤ 65536 ∧ work.snapshot.values ≠ .null ∧ work.snapshot.count = work.count ∧
    WorkTraits.maxQuantity Value p.options ≠ 0 ∧
    p.routes.inspectSpan (WorkTraits.table Value) work.start work.count = .complete := by
  unfold begin at h
  split at h
  · cases h
  rename_i hacc
  split at h
  · cases h
  rename_i hcount
  split at h
  · cases h
  rename_i hrange
  split at h
  · cases h
  rename_i hsnap
  split at h
  · cases h
  rename_i hmax
  simp only at h
  split at h
  · rename_i hspan
    cases hs : p.routes.inspectSpan (WorkTraits.table Value) work.start work.count <;> simp_all [mapSpanStatus]
  rename_i hspan
  have h1 := work.start.toNat_lt
  have h2 := work.count.toNat_lt
  simp only [gt_iff_lt, UInt32.lt_iff_toNat_lt, UInt32.toNat_add, UInt16.toNat_toUInt32, Nat.not_lt] at hrange
  have hle : (work.start.toNat + work.count.toNat) % UInt32.size ≤ 65536 := hrange
  rw [Nat.mod_eq_of_lt (by simp only [UInt32.size]; omega)] at hle
  simp only [ImmutableSnapshotView.validFor, Bool.not_eq_true', Bool.not_eq_false, Bool.and_eq_true, bne_iff_ne,
    beq_iff_eq] at hsnap hacc
  exact ⟨hacc, hcount, hle, hsnap.1.2, hsnap.2, hmax, Decidable.not_not.1 hspan⟩

theorem begin_ready (hp : p.RoutesOk) (h : (p.begin work).1 = .ready) : p.Plannable work := by
  obtain ⟨hacc, hcount, hle, hne, hsnap, hmax, hspan⟩ := begin_accepts h
  obtain ⟨_, _, hrouted⟩ := (RouteTableView.inspectSpan_complete hp.valid hp.small).1 hspan
  exact ⟨hacc, hcount, hle, hne, hsnap, hmax, hrouted⟩

omit [AppliedPayload Value] in
theorem startCursor_position (h : work.count ≠ 0) : Position (startCursor work) := by
  refine ⟨?_, ?_, Nat.zero_le _, ?_⟩
  · simp [startCursor]
  · simp [startCursor]
  · simp [startCursor, h]

/-! ## One fragment -/

/-- The length of the fragment route `r` gives at the cursor (`ForwardPlan.h:369-380`). -/
def fragmentSize (p : ForwardPlanner) (c : ForwardCursor Value) (r : UInt16) : UInt16 :=
  let upstream := p.routes.upstream (WorkTraits.table Value) r.toNat
  let routeAvailable := upstream.count - (c.nextAddress - upstream.start)
  let quantity := if c.remaining < routeAvailable then c.remaining else routeAvailable
  if quantity > WorkTraits.maxQuantity Value p.options then WorkTraits.maxQuantity Value p.options else quantity

/-- The request for it. -/
def fragmentRequest (mem : Memory) (p : ForwardPlanner) (c : ForwardCursor Value) (r q : UInt16) (sequence : UInt32) :
    PlannedWriteRequest :=
  WorkTraits.populatePayload Value mem (c.work.snapshot.values.add c.sourceOffset.toNat) q
    { identity := ⟨c.work.identity, sequence, c.fragmentIndex⟩
      delivery := c.work.delivery
      table := WorkTraits.table Value
      routeIndex := r
      endpointId := (p.routes.route r.toNat).endpointId
      upstreamStart := c.nextAddress
      downstreamStart := (p.routes.downstream (WorkTraits.table Value) r.toNat).start +
        (c.nextAddress - (p.routes.upstream (WorkTraits.table Value) r.toNat).start)
      quantity := q
      sourceOffset := c.sourceOffset
      finalFragment := c.remaining == q }

/-- The cursor past it. -/
def advance (c : ForwardCursor Value) (q : UInt16) : ForwardCursor Value :=
  { c with
    nextAddress := c.nextAddress + q
    remaining := c.remaining - q
    sourceOffset := c.sourceOffset + q
    fragmentIndex := c.fragmentIndex + 1
    active := if c.remaining - q = 0 then false else c.active }

/-- `next`, in the terms above. -/
theorem next_eq (mem : Memory) (p : ForwardPlanner) (c : ForwardCursor Value) (sequence : UInt32) :
    p.next mem c sequence =
      if !c.active ∨ c.remaining = 0 then (.complete, { c with active := false }, {})
      else if sequence = 0 ∧ c.work.identity.valid then (.invalidSequence, c, {})
      else
        match p.routes.locate (WorkTraits.table Value) c.nextAddress with
        | none => (.topologyChanged, { c with active := false, remaining := 0 }, {})
        | some r =>
          if p.fragmentSize c r = 0 then (.topologyChanged, { c with active := false, remaining := 0 }, {})
          else (.planned, advance c (p.fragmentSize c r), fragmentRequest mem p c r (p.fragmentSize c r) sequence) := rfl

/-- `q` elements at the cursor are a fragment of route `r`. -/
structure Fragment (p : ForwardPlanner) (c : ForwardCursor Value) (r q : UInt16) : Prop where
  maps : p.routes.Maps (WorkTraits.table Value) c.nextAddress r.toNat
  pos : 0 < q.toNat
  le_remaining : q.toNat ≤ c.remaining.toNat
  le_limit : q.toNat ≤ (WorkTraits.maxQuantity Value p.options).toNat
  within : c.nextAddress.toNat + q.toNat ≤ (p.routes.upstream (WorkTraits.table Value) r.toNat).stop

omit [AppliedPayload Value] in
theorem Position.toNat_nextAddress (h : Position c) (hrange : c.work.start.toNat + c.work.count.toNat ≤ 65536)
    (hr : c.remaining ≠ 0) : c.nextAddress.toNat = c.work.start.toNat + c.sourceOffset.toNat := by
  have hpos : 0 < c.remaining.toNat := toNat_pos.2 hr
  have := h.split
  rw [h.address, UInt16.toNat_add]
  omega

/-- The length computed is that of a fragment. -/
theorem fragmentSize_spec [LawfulPayload Value] (hp : p.RoutesOk) (hw : p.Plannable c.work) (hr : c.remaining ≠ 0) {r : UInt16}
    (hl : p.routes.locate (WorkTraits.table Value) c.nextAddress = some r) : p.Fragment c r (p.fragmentSize c r) := by
  obtain ⟨hm, _⟩ := RouteTableView.maps_of_locate hp.valid hp.small hl
  have hc := (AddressRange.contains_iff _ _).1 hm.2
  have hrem : 0 < c.remaining.toNat := toNat_pos.2 hr
  have hlim : 0 < (WorkTraits.maxQuantity Value p.options).toNat :=
    toNat_pos.2 hw.limit_ne
  have havail := AddressRange.toNat_available hm.2
  have hstop : c.nextAddress.toNat < (p.routes.upstream (WorkTraits.table Value) r.toNat).stop := hc.2
  suffices h : 0 < (p.fragmentSize c r).toNat ∧ (p.fragmentSize c r).toNat ≤ c.remaining.toNat ∧
      (p.fragmentSize c r).toNat ≤ (WorkTraits.maxQuantity Value p.options).toNat ∧
      (p.fragmentSize c r).toNat ≤ (p.routes.upstream (WorkTraits.table Value) r.toNat).stop - c.nextAddress.toNat from
    ⟨hm, h.1, h.2.1, h.2.2.1, by omega⟩
  simp only [fragmentSize, gt_iff_lt, UInt16.lt_iff_toNat_lt, havail]
  repeat' split
  all_goals simp only [havail] at *
  all_goals omega

/-- **`next` never fails on a plannable work**: it takes the next fragment. -/
theorem next_planned [LawfulPayload Value] (hp : p.RoutesOk) (hw : p.Plannable c.work) (hc : Position c)
    (hr : c.remaining ≠ 0) (mem : Memory) {sequence : UInt32} (hs : sequence ≠ 0) :
    ∃ r, p.Fragment c r (p.fragmentSize c r) ∧
      p.next mem c sequence =
        (.planned, advance c (p.fragmentSize c r), fragmentRequest mem p c r (p.fragmentSize c r) sequence) := by
  have hrem : 0 < c.remaining.toNat := toNat_pos.2 hr
  have haddr := hc.toNat_nextAddress hw.range_le hr
  have hsplit := hc.split
  obtain ⟨r, hl⟩ := hw.routed c.nextAddress (by omega) (by omega)
  have hfrag := fragmentSize_spec hp hw hr hl
  refine ⟨r, hfrag, ?_⟩
  have hq : p.fragmentSize c r ≠ 0 := fun e => by have := hfrag.pos; rw [e] at this; simp at this
  have hact : c.active = true := hc.active_iff.2 hr
  rw [next_eq]
  simp [hact, hr, hs, hl, hq]

/-! ## The cursor past a fragment -/

omit [AppliedPayload Value] in
theorem toNat_remaining_sub {q : UInt16} (hq : q.toNat ≤ c.remaining.toNat) :
    (c.remaining - q).toNat = c.remaining.toNat - q.toNat :=
  toNat_sub_of_le hq

omit [AppliedPayload Value] in
theorem advance_position (hc : Position c) (hr : c.remaining ≠ 0) {q : UInt16} (h0 : 0 < q.toNat)
    (hq : q.toNat ≤ c.remaining.toNat) : Position (advance c q) := by
  have hsub := toNat_remaining_sub hq
  have hsplit := hc.split
  have hcount := c.work.count.toNat_lt
  have hoff : (c.sourceOffset + q).toNat = c.sourceOffset.toNat + q.toNat := toNat_add_of_lt (by omega)
  have hidx := hc.index_le
  have hindex : (c.fragmentIndex + 1).toNat = c.fragmentIndex.toNat + 1 := toNat_succ_of_lt (by omega)
  refine ⟨?_, ?_, ?_, ?_⟩
  · show (c.sourceOffset + q).toNat + (c.remaining - q).toNat = c.work.count.toNat
    omega
  · show c.nextAddress + q = c.work.start + (c.sourceOffset + q)
    rw [hc.address, UInt16.add_assoc]
  · show (c.fragmentIndex + 1).toNat ≤ (c.sourceOffset + q).toNat
    omega
  · show (if c.remaining - q = 0 then false else c.active) = true ↔ c.remaining - q ≠ 0
    rw [hc.active_iff.2 hr]
    split <;> simp_all

/-! ## The request and the memory -/

theorem fragmentRequest_fields [LawfulPayload Value] (mem : Memory) (p : ForwardPlanner) (c : ForwardCursor Value)
    (r q : UInt16) (sequence : UInt32) :
    (fragmentRequest mem p c r q sequence).identity = ⟨c.work.identity, sequence, c.fragmentIndex⟩ ∧
    (fragmentRequest mem p c r q sequence).delivery = c.work.delivery ∧
    (fragmentRequest mem p c r q sequence).table = WorkTraits.table Value ∧
    (fragmentRequest mem p c r q sequence).upstreamStart = c.nextAddress ∧
    (fragmentRequest mem p c r q sequence).quantity = q ∧
    (fragmentRequest mem p c r q sequence).sourceOffset = c.sourceOffset ∧
    (fragmentRequest mem p c r q sequence).finalFragment = (c.remaining == q) ∧
    AppliedPayload.values Value (fragmentRequest mem p c r q sequence) =
      c.work.snapshot.values.add c.sourceOffset.toNat := by
  refine ⟨?_, ?_, ?_, ?_, ?_, ?_, ?_, LawfulPayload.values _ _ _ _⟩ <;>
    (unfold fragmentRequest; rw [LawfulPayload.keeps])

/-- Only the pointer of the work's own table is filled in. -/
theorem fragmentRequest_pointers [LawfulPayload Value] (mem : Memory) (p : ForwardPlanner) (c : ForwardCursor Value)
    (r q : UInt16) (sequence : UInt32) :
    (fragmentRequest mem p c r q sequence).coilValues =
      (if WorkTraits.table Value = .coils then c.work.snapshot.values.add c.sourceOffset.toNat else .null) ∧
    (fragmentRequest mem p c r q sequence).holdingValues =
      (if WorkTraits.table Value = .coils then .null else c.work.snapshot.values.add c.sourceOffset.toNat) :=
  LawfulPayload.pointers _ _ _ _

/-- `next` reads one cell of memory, the first of the fragment. -/
theorem next_congr [LawfulPayload Value] {mem mem' : Memory}
    (h : c.remaining ≠ 0 → (MemoryCell.load mem (c.work.snapshot.values.add c.sourceOffset.toNat) : Value) =
      MemoryCell.load mem' (c.work.snapshot.values.add c.sourceOffset.toNat)) (sequence : UInt32) :
    p.next mem c sequence = p.next mem' c sequence := by
  rw [next_eq, next_eq]
  by_cases hr : c.remaining = 0
  · simp [hr]
  · have hreq : ∀ r q, fragmentRequest mem p c r q sequence = fragmentRequest mem' p c r q sequence := fun r q =>
      LawfulPayload.congr _ _ _ _ _ (h hr)
    simp only [hreq]

/-! ## Driving the planner -/

/-- Repeated `next`, one request sequence after the other, until it stops planning: the
requests handed out and the cursor left behind. -/
def replay (mem : Memory) (p : ForwardPlanner) : ForwardCursor Value → List UInt32 →
    List PlannedWriteRequest × ForwardCursor Value
  | c, [] => ([], c)
  | c, sequence :: sequences =>
    match p.next mem c sequence with
    | (.planned, c', request) => (request :: (replay mem p c' sequences).1, (replay mem p c' sequences).2)
    | (_, c', _) => ([], c')

/-- A fresh `begin` followed by repeated `next`. -/
def planned (mem : Memory) (p : ForwardPlanner) (work : IngressWorkView Value) (sequences : List UInt32) :
    List PlannedWriteRequest :=
  (replay mem p (p.begin work).2 sequences).1

theorem replay_cons {sequence : UInt32} {sequences : List UInt32} {c' : ForwardCursor Value}
    {request : PlannedWriteRequest} (h : p.next mem c sequence = (.planned, c', request)) :
    replay mem p c (sequence :: sequences) =
      (request :: (replay mem p c' sequences).1, (replay mem p c' sequences).2) := by
  simp only [replay, h]

theorem replay_prefix (mem : Memory) (p : ForwardPlanner) (c : ForwardCursor Value) (sequences later : List UInt32) :
    (replay mem p c sequences).1 <+: (replay mem p c (sequences ++ later)).1 := by
  induction sequences generalizing c with
  | nil => exact List.nil_prefix
  | cons s sequences ih =>
    simp only [List.cons_append, replay]
    split
    · exact List.prefix_cons_inj _ |>.2 (ih _)
    · exact List.prefix_rfl

/-- One more planned fragment. -/
theorem replay_snoc {sequences : List UInt32} {requests : List PlannedWriteRequest} {c₁ c₂ : ForwardCursor Value}
    {sequence : UInt32} {request : PlannedWriteRequest} (h : replay mem p c sequences = (requests, c₁))
    (hlen : requests.length = sequences.length) (hn : p.next mem c₁ sequence = (.planned, c₂, request)) :
    replay mem p c (sequences ++ [sequence]) = (requests ++ [request], c₂) := by
  induction sequences generalizing c requests with
  | nil =>
    simp only [replay, Prod.mk.injEq] at h
    obtain ⟨rfl, rfl⟩ := h
    simp only [List.nil_append, replay, hn]
  | cons s sequences ih =>
    simp only [List.cons_append, replay] at h ⊢
    split at h
    · rename_i c' r hr
      simp only [Prod.mk.injEq] at h
      obtain ⟨rfl, h2⟩ := h
      rw [ih (Prod.ext rfl h2) (by simpa using hlen)]
      rfl
    · simp only [Prod.mk.injEq] at h
      obtain ⟨rfl, _⟩ := h
      simp at hlen

end ForwardPlanner

end ModbusRTUBridge
