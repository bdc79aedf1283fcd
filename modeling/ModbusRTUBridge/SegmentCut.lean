import ModbusRTUBridge.Preflight
/-!
# Fragments are cut segments

Two loops walk the same range: `RouteTableView::next` one route at a time, `ForwardPlanner::next`
one fragment at a time, looking its route up again at every step. The fragments are the segments,
each cut from its left end into pieces of the quantity limit (`RouteSegment.cut`).
-/

namespace ModbusRTUBridge

/-! ## Cutting -/

namespace RouteSegment

variable {s : RouteSegment} {m : UInt16}

/-- What is left of a segment without its first `q` elements. -/
def drop (s : RouteSegment) (q : UInt16) : RouteSegment :=
  { s with
    upstreamStart := s.upstreamStart + q
    downstreamStart := s.downstreamStart + q
    count := s.count - q
    sourceOffset := s.sourceOffset + q }

/-- Piece `j` of a segment cut into pieces of `m`. -/
def piece (s : RouteSegment) (m : UInt16) (j : Nat) : RouteSegment :=
  let rest := s.drop (.ofNat (j * m.toNat))
  { rest with count := if rest.count < m then rest.count else m }

/-- All of them; there are `⌈count / m⌉`. -/
def cut (s : RouteSegment) (m : UInt16) : List RouteSegment :=
  (List.range ((s.count.toNat + m.toNat - 1) / m.toNat)).map (s.piece m)

theorem drop_zero (s : RouteSegment) : s.drop 0 = s := by
  simp [drop]

theorem drop_drop (s : RouteSegment) (q q' : UInt16) : (s.drop q).drop q' = s.drop (q + q') := by
  have hsub : s.count - q - q' = s.count - (q + q') := by grind
  simp [drop, UInt16.add_assoc, hsub]

/-- A segment that fits stays whole. -/
theorem cut_of_le (h0 : s.count ≠ 0) (h : s.count.toNat ≤ m.toNat) : s.cut m = [s] := by
  have hpos := toNat_pos.2 h0
  have hone : (s.count.toNat + m.toNat - 1) / m.toNat = 1 := Nat.div_eq_of_lt_le (by omega) (by omega)
  have hwhole : s.piece m 0 = s := by
    have hcount : (if s.count < m then s.count else m) = s.count := by
      apply UInt16.toNat_inj.1
      rw [toNat_smaller]
      omega
    simp only [piece, Nat.zero_mul]
    rw [show UInt16.ofNat 0 = 0 from rfl, drop_zero, hcount]
  rw [cut, hone]
  simp [hwhole]

/-- One piece, and the rest cut in the same way. -/
theorem cut_of_gt (hm : m ≠ 0) (h : m.toNat < s.count.toNat) : s.cut m = { s with count := m } :: (s.drop m).cut m := by
  have hpos := toNat_pos.2 hm
  have hrest : (s.drop m).count.toNat = s.count.toNat - m.toNat := toNat_sub_of_le (Nat.le_of_lt h)
  have hcount : (s.count.toNat + m.toNat - 1) / m.toNat = (s.count.toNat - m.toNat + m.toNat - 1) / m.toNat + 1 := by
    rw [show s.count.toNat + m.toNat - 1 = (s.count.toNat - m.toNat + m.toNat - 1) + m.toNat by omega,
      Nat.add_div_right _ hpos]
  have hfirst : s.piece m 0 = { s with count := m } := by
    have hlt : (if s.count < m then s.count else m) = m := by
      apply UInt16.toNat_inj.1
      rw [toNat_smaller]
      omega
    simp only [piece, Nat.zero_mul]
    rw [show UInt16.ofNat 0 = 0 from rfl, drop_zero, hlt]
  have hnext : ∀ j, s.piece m (j + 1) = (s.drop m).piece m j := by
    intro j
    simp only [piece, drop_drop]
    rw [show UInt16.ofNat ((j + 1) * m.toNat) = m + UInt16.ofNat (j * m.toNat) by
      rw [Nat.add_mul, Nat.one_mul, UInt16.ofNat_add, UInt16.ofNat_toNat, UInt16.add_comm]]
  rw [cut, cut, hrest, hcount, List.range_succ_eq_map, List.map_cons, List.map_map, hfirst]
  congr 1
  exact List.map_congr_left fun j _ => hnext j

end RouteSegment

/-! ## The segments from a cursor on -/

namespace RouteTableView

variable {v : RouteTableView} {t : RegisterTable} {start count : UInt16} {c : RouteCursor}

/-- More calls than the walk needs change nothing. -/
theorem walk_more (n k : Nat) (h : v.next (v.walk n c).2 = (none, (v.walk n c).2)) : v.walk (n + k) c = v.walk n c := by
  induction n generalizing c with
  | zero =>
    have hnext : v.next c = (none, c) := h
    cases k with
    | zero => rfl
    | succ k => simp only [walk, hnext]
  | succ n ih =>
    rw [Nat.add_right_comm, walk, walk]
    rw [walk] at h
    split
    · rfl
    · rename_i s c' hnext
      rw [hnext] at h
      rw [ih h]

/-- The segments `next` hands out from a cursor on. -/
def segmentsFrom (v : RouteTableView) (c : RouteCursor) : List RouteSegment := (v.walk c.remaining.toNat c).1

theorem segmentsFrom_nil (h0 : c.remaining = 0) : v.segmentsFrom c = [] := by
  rw [segmentsFrom, h0]
  rfl

section
variable (hv : v.validate = .valid) (hn : v.routeCount.toNat ≤ 32767)
include hv hn

theorem segmentsFrom_cons (h : v.SpanCursor t start count c) (hr : c.remaining ≠ 0) {r : UInt16}
    (hl : v.locate c.table c.nextAddress = some r) :
    v.segmentsFrom c = v.segment c r :: v.segmentsFrom (past c (v.chunk c r)) := by
  have hchunk := toNat_chunk hv hn hl
  have hof := segmentOf_locate hv hn h hr hl
  have hpos : 0 < (v.chunk c r).toNat := toNat_pos.2 hof.count_ne
  obtain ⟨hpast, hrem, _⟩ := h.past (q := v.chunk c r) (by omega)
  have hnext : v.next c = (some (v.segment c r), past c (v.chunk c r)) := by rw [next_eq, if_neg hr, hl]
  obtain ⟨segments, c', hw, hdone, _⟩ := walk_segmented hv hn _ hpast (Nat.le_refl _)
  obtain ⟨k, hk⟩ : ∃ k, c.remaining.toNat = (past c (v.chunk c r)).remaining.toNat + k + 1 :=
    ⟨(v.chunk c r).toNat - 1, by omega⟩
  rw [segmentsFrom, hk, walk, hnext]
  simp only
  rw [walk_more _ k (by rw [hw]; exact hdone), segmentsFrom]

/-- **Inside a segment** the lookup finds the same route, and what is left is the rest of the
segment. -/
theorem segmentsFrom_past (h : v.SpanCursor t start count c) (hr : c.remaining ≠ 0) {r : UInt16}
    (hl : v.locate c.table c.nextAddress = some r) {q : UInt16} (hq : q.toNat < (v.chunk c r).toNat) :
    v.segmentsFrom (past c q) = (v.segment c r).drop q :: v.segmentsFrom (past c (v.chunk c r)) := by
  have hchunk := toNat_chunk hv hn hl
  have haddr := h.toNat_nextAddress hr
  have hsplit := h.split
  have hrange := h.range_le
  obtain ⟨hm, _⟩ := maps_of_locate hv hn hl
  have hc := (AddressRange.contains_iff _ _).1 hm.2
  obtain ⟨hpast, hrem, hoff⟩ := h.past (q := q) (by omega)
  have hne : (past c q).remaining ≠ 0 := toNat_pos.1 (by omega)
  have hnext := hpast.toNat_nextAddress hne
  have hl' : v.locate (past c q).table (past c q).nextAddress = some r := by
    rw [locate_iff_lies hv hn]
    refine ⟨index_of_locate hl, hm.1, (AddressRange.contains_iff _ _).2 ?_⟩
    show (v.upstream c.table r.toNat).start.toNat ≤ _ ∧
      _ < (v.upstream c.table r.toNat).start.toNat + (v.upstream c.table r.toNat).count.toNat
    simp only [AddressRange.stop] at hchunk
    omega
  have hchunk' := toNat_chunk hv hn hl'
  have hrest : v.chunk (past c q) r = v.chunk c r - q := by
    apply UInt16.toNat_inj.1
    rw [toNat_sub_of_le (Nat.le_of_lt hq), hchunk', hchunk, hrem, hnext, hoff]
    show min _ ((v.upstream c.table r.toNat).stop - _) = _
    omega
  rw [segmentsFrom_cons hv hn hpast hne hl', hrest]
  congr 1
  · simp only [segment, RouteSegment.drop, hrest]
    simp only [past, RouteSegment.mk.injEq, true_and, and_true]
    grind
  · congr 1
    simp only [past, RouteCursor.mk.injEq, true_and]
    grind

end

end RouteTableView

/-! ## Fragments -/

namespace ForwardPlanner

variable {Value : Type} [AppliedPayload Value] {p : ForwardPlanner} {work : IngressWorkView Value} {c : ForwardCursor Value}

/-- The requests some calls of `next` plan, each call with its own memory and request sequence. -/
def fragments (p : ForwardPlanner) (c : ForwardCursor Value) : List (Memory × UInt32) → List PlannedWriteRequest
  | [] => []
  | call :: calls =>
    match p.next call.1 c call.2 with
    | (.planned, c', request) => request :: fragments p c' calls
    | (_, c', _) => fragments p c' calls

/-- The part of a request a segment has too. -/
def routeSegment (r : PlannedWriteRequest) : RouteSegment :=
  ⟨r.routeIndex, r.endpointId, r.upstreamStart, r.downstreamStart, r.quantity, r.sourceOffset⟩

/-- The span a cursor still has to plan. -/
def spanCursor (c : ForwardCursor Value) : RouteCursor :=
  ⟨WorkTraits.table Value, c.nextAddress, c.remaining, c.sourceOffset⟩

theorem Underway.span (h : p.Underway work c) :
    p.routes.SpanCursor (WorkTraits.table Value) work.start work.count (spanCursor c) := by
  obtain ⟨rfl, hw, hc⟩ := h
  have hsplit := hc.split
  exact ⟨rfl, hc.address, hsplit, hw.range_le, hw.routed.mono (Nat.le_add_right _ _) (by
    show c.work.start.toNat + c.sourceOffset.toNat + c.remaining.toNat ≤ _
    omega)⟩

/-- A fragment is the segment at the cursor, unless the limit is shorter. -/
theorem fragmentSize_chunk (p : ForwardPlanner) (c : ForwardCursor Value) (r : UInt16) : p.fragmentSize c r =
    if p.routes.chunk (spanCursor c) r > WorkTraits.maxQuantity Value p.options then WorkTraits.maxQuantity Value p.options
    else p.routes.chunk (spanCursor c) r := rfl

theorem routeSegment_fragmentRequest [LawfulPayload Value] (mem : Memory) (p : ForwardPlanner) (c : ForwardCursor Value)
    (r q : UInt16) (sequence : UInt32) :
    routeSegment (fragmentRequest mem p c r q sequence) = { p.routes.segment (spanCursor c) r with count := q } := by
  unfold fragmentRequest
  rw [LawfulPayload.keeps]
  rfl

/-- **One fragment** is the first piece of the segments ahead; the segments past it have the rest. -/
theorem segments_step [LawfulPayload Value] (hp : p.RoutesOk) (h : p.Underway work c) (hr : c.remaining ≠ 0)
    {r : UInt16} (hl : p.routes.locate (WorkTraits.table Value) c.nextAddress = some r) (mem : Memory)
    (sequence : UInt32) :
    (p.routes.segmentsFrom (spanCursor c)).flatMap (·.cut (WorkTraits.maxQuantity Value p.options)) =
      routeSegment (fragmentRequest mem p c r (p.fragmentSize c r) sequence) ::
        (p.routes.segmentsFrom (spanCursor (advance c (p.fragmentSize c r)))).flatMap
          (·.cut (WorkTraits.maxQuantity Value p.options)) := by
  have hspan := h.span
  have hof := RouteTableView.segmentOf_locate hp.valid hp.small hspan hr hl
  have hadvance : ∀ q, spanCursor (advance c q) = RouteTableView.past (spanCursor c) q := fun _ => rfl
  rw [RouteTableView.segmentsFrom_cons hp.valid hp.small hspan hr hl, List.flatMap_cons, routeSegment_fragmentRequest,
    hadvance, fragmentSize_chunk]
  split
  · rename_i hlong
    rw [gt_iff_lt, UInt16.lt_iff_toNat_lt] at hlong
    rw [RouteTableView.segmentsFrom_past hp.valid hp.small hspan hr hl hlong, List.flatMap_cons,
      RouteSegment.cut_of_gt h.plannable.limit_ne hlong]
    rfl
  · rename_i hshort
    rw [gt_iff_lt, UInt16.lt_iff_toNat_lt, Nat.not_lt] at hshort
    rw [RouteSegment.cut_of_le hof.count_ne hshort]
    rfl

/-- One call with any sequence: it plans the next fragment, or changes nothing. -/
theorem next_cases [LawfulPayload Value] (hp : p.RoutesOk) (h : p.Underway work c) (mem : Memory) (sequence : UInt32) :
    (∃ status, status ≠ .planned ∧ p.next mem c sequence = (status, c, {})) ∨
    (∃ r, c.remaining ≠ 0 ∧ p.routes.locate (WorkTraits.table Value) c.nextAddress = some r ∧
      p.Fragment c r (p.fragmentSize c r) ∧ p.Underway work (advance c (p.fragmentSize c r)) ∧
      p.next mem c sequence =
        (.planned, advance c (p.fragmentSize c r), fragmentRequest mem p c r (p.fragmentSize c r) sequence)) := by
  rw [next_eq]
  by_cases hr : c.remaining = 0
  · have hact : c.active = false := h.position.inactive hr
    refine Or.inl ⟨.complete, by decide, ?_⟩
    rw [if_pos (Or.inr hr), ← hact]
  have hact : c.active = true := h.position.active_iff.2 hr
  rw [if_neg (by simp [hact, hr])]
  by_cases hbad : sequence = 0 ∧ c.work.identity.valid = true
  · exact Or.inl ⟨.invalidSequence, by decide, if_pos hbad⟩
  have hpos := toNat_pos.2 hr
  have hsplit := h.position.split
  have haddr := h.position.toNat_nextAddress h.plannable.range_le hr
  obtain ⟨r, hl⟩ := h.plannable.routed c.nextAddress (by omega) (by omega)
  have hfrag := fragmentSize_spec hp h.plannable hr hl
  refine Or.inr ⟨r, hr, hl, hfrag, ?_, ?_⟩
  · exact ⟨h.work, h.plannable, advance_position h.position hr hfrag.pos hfrag.le_remaining⟩
  · rw [if_neg hbad, hl]
    simp only
    rw [if_neg (toNat_pos.1 hfrag.pos)]

/-- Requests that are some segments cut at the limit, numbered from `index` on. -/
structure CutInto (p : ForwardPlanner) (index : Nat) (limit : UInt16) (segments : List RouteSegment)
    (requests : List PlannedWriteRequest) : Prop where
  pieces : requests.map routeSegment = segments.flatMap (·.cut limit)
  index : ∀ k r, requests[k]? = some r → r.identity.fragmentIndex.toNat = index + k
  final : ∀ k r, requests[k]? = some r → (r.finalFragment = true ↔ k + 1 = requests.length)
  limit : ∀ r ∈ requests, r.quantity.toNat ≤ limit.toNat
  within : ∀ r ∈ requests, (p.routes.upstream r.table r.routeIndex.toNat).start.toNat ≤ r.upstreamStart.toNat ∧
    r.upstreamStart.toNat + r.quantity.toNat ≤ (p.routes.upstream r.table r.routeIndex.toNat).stop

/-- A fragment in front of the rest. It is the final one when nothing is left. -/
theorem CutInto.cons [LawfulPayload Value] (hp : p.RoutesOk) (h : p.Underway work c) (hr : c.remaining ≠ 0) {r : UInt16}
    (hl : p.routes.locate (WorkTraits.table Value) c.nextAddress = some r) (mem : Memory) (sequence : UInt32)
    {requests : List PlannedWriteRequest}
    (hlast : requests = [] ↔ (advance c (p.fragmentSize c r)).remaining = 0)
    (hrest : p.CutInto (advance c (p.fragmentSize c r)).fragmentIndex.toNat (WorkTraits.maxQuantity Value p.options)
      (p.routes.segmentsFrom (spanCursor (advance c (p.fragmentSize c r)))) requests) :
    p.CutInto c.fragmentIndex.toNat (WorkTraits.maxQuantity Value p.options) (p.routes.segmentsFrom (spanCursor c))
      (fragmentRequest mem p c r (p.fragmentSize c r) sequence :: requests) := by
  have hfrag := fragmentSize_spec hp h.plannable hr hl
  obtain ⟨hid, _, htable, hup, hquantity, _, hfinal, _⟩ := fragmentRequest_fields mem p c r (p.fragmentSize c r) sequence
  have hroute : (fragmentRequest mem p c r (p.fragmentSize c r) sequence).routeIndex = r :=
    congrArg RouteSegment.routeIndex (routeSegment_fragmentRequest mem p c r (p.fragmentSize c r) sequence)
  have hindex : (advance c (p.fragmentSize c r)).fragmentIndex.toNat = c.fragmentIndex.toNat + 1 := by
    have hpos := toNat_pos.2 hr
    have hsplit := h.position.split
    have hle := h.position.index_le
    have hcount := c.work.count.toNat_lt
    exact toNat_succ_of_lt (by omega)
  have hend : (advance c (p.fragmentSize c r)).remaining = 0 ↔ c.remaining = p.fragmentSize c r := by
    show c.remaining - p.fragmentSize c r = 0 ↔ _
    rw [← UInt16.toNat_inj, ← UInt16.toNat_inj, toNat_remaining_sub hfrag.le_remaining, UInt16.toNat_zero]
    have := hfrag.le_remaining
    omega
  constructor
  · rw [List.map_cons, hrest.pieces, ← segments_step hp h hr hl mem sequence]
  · rintro (_ | k) r' hk
    · obtain rfl := Option.some.inj hk
      rw [hid]
      rfl
    · have := hrest.index k r' hk
      omega
  · rintro (_ | k) r' hk
    · obtain rfl := Option.some.inj hk
      rw [hfinal, beq_iff_eq, ← hend, ← hlast, List.length_cons]
      simp
    · rw [hrest.final k r' hk, List.length_cons]
      omega
  · intro r' hr'
    rcases List.mem_cons.1 hr' with rfl | hr'
    · rw [hquantity]
      exact hfrag.le_limit
    · exact hrest.limit r' hr'
  · intro r' hr'
    rcases List.mem_cons.1 hr' with rfl | hr'
    · rw [htable, hroute, hup, hquantity]
      exact ⟨((AddressRange.contains_iff _ _).1 hfrag.maps.2).1, hfrag.within⟩
    · exact hrest.within r' hr'

/-- Calls that plan nothing leave the cursor. -/
theorem after_eq_of_fragments [LawfulPayload Value] (hp : p.RoutesOk) (h : p.Underway work c)
    {calls : List (Memory × UInt32)} (hnil : p.fragments c calls = []) : p.after c calls = c := by
  induction calls with
  | nil => rfl
  | cons call calls ih =>
    rcases next_cases hp h call.1 call.2 with ⟨status, hne, hnext⟩ | ⟨r, _, _, _, _, hnext⟩
    · have hskip : p.fragments c (call :: calls) = p.fragments c calls := by
        cases status <;> first | exact absurd rfl hne | simp only [fragments, hnext]
      rw [after, hnext]
      exact ih (hskip ▸ hnil)
    · simp [fragments, hnext] at hnil

theorem fragments_done (h : p.Underway work c) (h0 : c.remaining = 0) (calls : List (Memory × UInt32)) :
    p.fragments c calls = [] := by
  have hact : c.active = false := h.position.inactive h0
  induction calls with
  | nil => rfl
  | cons call calls ih =>
    have hnext : p.next call.1 c call.2 = (.complete, c, {}) := by rw [next_eq, if_pos (Or.inr h0), ← hact]
    simp only [fragments, hnext]
    exact ih

/-- **The fragments from a cursor to the end** of its work. -/
theorem fragments_cutInto [LawfulPayload Value] (hp : p.RoutesOk) (calls : List (Memory × UInt32))
    (h : p.Underway work c) (hend : (p.after c calls).active = false) :
    p.CutInto c.fragmentIndex.toNat (WorkTraits.maxQuantity Value p.options)
      (p.routes.segmentsFrom (spanCursor c)) (p.fragments c calls) := by
  induction calls generalizing c with
  | nil =>
    have h0 : c.remaining = 0 := by
      apply Decidable.byContradiction
      intro hr
      rw [show p.after c [] = c from rfl, h.position.active_iff.2 hr] at hend
      cases hend
    have hseg : p.routes.segmentsFrom (spanCursor c) = [] := RouteTableView.segmentsFrom_nil h0
    rw [hseg]
    constructor <;> simp [fragments]
  | cons call calls ih =>
    rcases next_cases hp h call.1 call.2 with ⟨status, hne, hnext⟩ | ⟨r, hr, hl, hfrag, hunder, hnext⟩
    · have hskip : p.fragments c (call :: calls) = p.fragments c calls := by
        cases status <;> first | exact absurd rfl hne | simp only [fragments, hnext]
      rw [after, hnext] at hend
      rw [hskip]
      exact ih h hend
    · rw [after, hnext] at hend
      have hcons : p.fragments c (call :: calls) = fragmentRequest call.1 p c r (p.fragmentSize c r) call.2 ::
          p.fragments (advance c (p.fragmentSize c r)) calls := by
        simp only [fragments, hnext]
      rw [hcons]
      refine CutInto.cons hp h hr hl call.1 call.2 ⟨?_, ?_⟩ (ih hunder hend)
      · intro hnil
        rw [after_eq_of_fragments hp hunder hnil] at hend
        apply Decidable.byContradiction
        intro hne
        rw [hunder.position.active_iff.2 hne] at hend
        cases hend
      · intro h0
        exact fragments_done hunder h0 calls

/-- **Planner fragments equal route segments cut at the limit.** -/
theorem fragments_cut [LawfulPayload Value] (hp : p.RoutesOk) (hready : (p.begin work).1 = .ready) :
    (∀ calls : List (Memory × UInt32), (p.after (p.begin work).2 calls).active = false →
      p.CutInto 0 (WorkTraits.maxQuantity Value p.options)
        (p.routes.walk work.count.toNat
          (p.routes.beginSpan (WorkTraits.table Value) work.start work.count).2).1
        (p.fragments (p.begin work).2 calls)) ∧
    ∀ calls : List (Memory × UInt32), (∀ call ∈ calls, call.2 ≠ 0) → work.count.toNat ≤ calls.length →
      (p.after (p.begin work).2 calls).active = false := by
  obtain ⟨hbegin, hstart⟩ := start_underway hp hready
  have hwork : p.Plannable work := hstart.plannable
  have hspan : (p.routes.beginSpan (WorkTraits.table Value) work.start work.count).2 = spanCursor (startCursor work) := by
    have := (RouteTableView.inspectSpan_complete hp.valid hp.small).2 ⟨hwork.count_ne, hwork.range_le, hwork.routed⟩
    simp only [RouteTableView.beginSpan, this]
    rfl
  rw [hbegin, hspan]
  constructor
  · intro calls hend
    exact fragments_cutInto hp calls hstart hend
  · intro calls
    exact after_inactive hp hstart

theorem fragments_cut_test : (testPlanner.begin splitWork).1 = .ready ∧
    testPlanner.CutInto 0 2 [⟨0, 4, 102, 2, 2, 0⟩, ⟨1, 9, 104, 20, 3, 2⟩]
      (testPlanner.fragments (testPlanner.begin splitWork).2
        (List.replicate 3 (⟨fun _ => false, fun _ => 0⟩, 1))) := by
  have hready : (testPlanner.begin splitWork).1 = .ready := by decide
  have hwalk : (testPlanner.routes.walk 5 (testPlanner.routes.beginSpan .holdingRegisters 102 5).2).1 =
      [⟨0, 4, 102, 2, 2, 0⟩, ⟨1, 9, 104, 20, 3, 2⟩] := by decide +kernel
  have hcut := (fragments_cut testPlanner_routesOk hready).1 (List.replicate 3 (⟨fun _ => false, fun _ => 0⟩, 1))
    (by decide +kernel)
  exact ⟨hready, hwalk ▸ hcut⟩

end ForwardPlanner

end ModbusRTUBridge
