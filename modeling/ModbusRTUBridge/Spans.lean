import ModbusRTUBridge.Lib.Tiling
import ModbusRTUBridge.Locate
/-!
# Span inspection and segmentation

`inspectSpan` answers exactly what its four statuses say (`Verdict`), and after a `Complete`
`next` cuts the span at the route boundaries and nowhere else: `walk` is `next` called until it
returns `false`, and its invariant is `SpanCursor`, which ties the cursor to the part of the span
already handed out.
-/

namespace ModbusRTUBridge

namespace RouteTableView

variable {v : RouteTableView} {t : RegisterTable} {start count : UInt16} {c : RouteCursor}

/-! ## The statuses -/

/-- Address `a` lies in route `i` of table `t`. -/
def Lies (v : RouteTableView) (t : RegisterTable) (a : UInt16) (i : Nat) : Prop :=
  t.index < RegisterTable.count ∧ v.Maps t a i

/-- When a span has each status. -/
def Verdict (v : RouteTableView) (t : RegisterTable) (start count : UInt16) : RoutedSpanStatus → Prop
  | .empty => count = 0
  | .addressOverflow => count ≠ 0 ∧ 65536 < start.toNat + count.toNat
  | .gap => count ≠ 0 ∧ start.toNat + count.toNat ≤ 65536 ∧
      ∃ a : UInt16, start.toNat ≤ a.toNat ∧ a.toNat < start.toNat + count.toNat ∧ ∀ i, ¬ v.Lies t a i
  | .complete => count ≠ 0 ∧ start.toNat + count.toNat ≤ 65536 ∧
      ∀ a : UInt16, start.toNat ≤ a.toNat → a.toNat < start.toNat + count.toNat → ∃ i, v.Lies t a i

section
variable (hv : v.validate = .valid) (hn : v.routeCount.toNat ≤ 32767)
include hv hn

theorem locate_iff_lies {a r : UInt16} : v.locate t a = some r ↔ v.Lies t a r.toNat := by
  constructor
  · intro h
    exact ⟨index_of_locate h, (maps_of_locate hv hn h).1⟩
  · rintro ⟨ht, hm⟩
    exact (locate_eq_some hv hn ht).2 hm

theorem exists_locate {a : UInt16} : (∃ r, v.locate t a = some r) ↔ ∃ i, v.Lies t a i := by
  constructor
  · rintro ⟨r, hr⟩
    exact ⟨_, (locate_iff_lies hv hn).1 hr⟩
  · rintro ⟨i, ht, hm⟩
    exact Option.isSome_iff_exists.1 ((locate_isSome hv hn ht).2 ⟨i, hm⟩)

theorem inspectSpan_verdict (t : RegisterTable) (start count : UInt16) (s : RoutedSpanStatus) :
    v.inspectSpan t start count = s ↔ v.Verdict t start count s := by
  have hrouted : v.Routed t start.toNat count.toNat ↔
      ∀ a : UInt16, start.toNat ≤ a.toNat → a.toNat < start.toNat + count.toNat → ∃ i, v.Lies t a i :=
    forall_congr' fun a => imp_congr_right fun _ => imp_congr_right fun _ => exists_locate hv hn
  have hgap : (¬ v.Routed t start.toNat count.toNat) ↔
      ∃ a : UInt16, start.toNat ≤ a.toNat ∧ a.toNat < start.toNat + count.toNat ∧ ∀ i, ¬ v.Lies t a i := by
    rw [hrouted]
    simp only [Classical.not_forall, not_exists, exists_prop]
  rcases inspectSpan_cases hv hn t start count with ⟨h0, h⟩ | ⟨h0, hover, h⟩ | ⟨h0, hle, hr, h⟩ | ⟨h0, hle, hr, h⟩
  · rw [h]
    cases s <;> simp [Verdict, h0]
  · cases s <;> simp [Verdict, h, h0, hover, Nat.not_le.2 hover]
  · cases s <;> simp only [Verdict, h, ← hrouted, ← hgap] <;> simp [h0, hle, Nat.not_lt.2 hle, hr]
  · cases s <;> simp only [Verdict, h, ← hrouted, ← hgap] <;> simp [h0, hle, Nat.not_lt.2 hle, hr]

end

/-! ## Segments -/

/-- The length of the segment route `r` gives at the cursor (`RouteTable.h:287-289`). -/
def chunk (v : RouteTableView) (c : RouteCursor) (r : UInt16) : UInt16 :=
  let upstream := v.upstream c.table r.toNat
  let available := upstream.count - (c.nextAddress - upstream.start)
  if c.remaining < available then c.remaining else available

/-- The segment. -/
def segment (v : RouteTableView) (c : RouteCursor) (r : UInt16) : RouteSegment :=
  { routeIndex := r
    endpointId := (v.route r.toNat).endpointId
    upstreamStart := c.nextAddress
    downstreamStart := (v.downstream c.table r.toNat).start + (c.nextAddress - (v.upstream c.table r.toNat).start)
    count := v.chunk c r
    sourceOffset := c.sourceOffset }

/-- The cursor `q` elements further. -/
def past (c : RouteCursor) (q : UInt16) : RouteCursor :=
  { c with
    nextAddress := c.nextAddress + q
    remaining := c.remaining - q
    sourceOffset := c.sourceOffset + q }

/-- `next`, in the terms above. -/
theorem next_eq (v : RouteTableView) (c : RouteCursor) :
    v.next c =
      if c.remaining = 0 then (none, c)
      else
        match v.locate c.table c.nextAddress with
        | none => (none, { c with remaining := 0 })
        | some r => (some (v.segment c r), past c (v.chunk c r)) := rfl

/-- `next` until it returns `false`, at most `calls` times: the segments and the cursor left. -/
def walk (v : RouteTableView) : Nat → RouteCursor → List RouteSegment × RouteCursor
  | 0, c => ([], c)
  | calls + 1, c =>
    match v.next c with
    | (none, c') => ([], c')
    | (some s, c') => (s :: (v.walk calls c').1, (v.walk calls c').2)

/-- A segment of a span that starts at `start`: it lies in one route, and is mapped to that
route's downstream range element by element. -/
structure SegmentOf (v : RouteTableView) (t : RegisterTable) (start : UInt16) (s : RouteSegment) : Prop where
  count_ne : s.count ≠ 0
  offset : start.toNat + s.sourceOffset.toNat = s.upstreamStart.toNat
  single : ∀ a : UInt16, s.upstreamStart.toNat ≤ a.toNat → a.toNat < s.upstreamStart.toNat + s.count.toNat →
    ∀ i, v.Lies t a i ↔ i = s.routeIndex.toNat
  endpoint : s.endpointId = (v.route s.routeIndex.toNat).endpointId
  shift : s.downstreamStart.toNat + (v.upstream t s.routeIndex.toNat).start.toNat =
    (v.downstream t s.routeIndex.toNat).start.toNat + s.upstreamStart.toNat
  downstream_le : s.downstreamStart.toNat + s.count.toNat ≤ 65536

/-- A cursor part of the way through a span. -/
structure SpanCursor (v : RouteTableView) (t : RegisterTable) (start count : UInt16) (c : RouteCursor) : Prop where
  table : c.table = t
  address : c.nextAddress = start + c.sourceOffset
  split : c.sourceOffset.toNat + c.remaining.toNat = count.toNat
  range_le : start.toNat + count.toNat ≤ 65536
  routed : v.Routed t (start.toNat + c.sourceOffset.toNat) c.remaining.toNat

theorem SpanCursor.toNat_nextAddress (h : v.SpanCursor t start count c) (hr : c.remaining ≠ 0) :
    c.nextAddress.toNat = start.toNat + c.sourceOffset.toNat := by
  have hpos : 0 < c.remaining.toNat := toNat_pos.2 hr
  have := h.split
  have := h.range_le
  rw [h.address, UInt16.toNat_add]
  omega

section
variable (hv : v.validate = .valid) (hn : v.routeCount.toNat ≤ 32767)
include hv hn

theorem toNat_chunk {r : UInt16} (hl : v.locate c.table c.nextAddress = some r) : (v.chunk c r).toNat =
    min c.remaining.toNat ((v.upstream c.table r.toNat).stop - c.nextAddress.toNat) := by
  obtain ⟨hm, _⟩ := maps_of_locate hv hn hl
  rw [chunk, toNat_smaller, AddressRange.toNat_available hm.2]

/-- One segment. -/
theorem segmentOf_locate (h : v.SpanCursor t start count c) (hr : c.remaining ≠ 0) {r : UInt16}
    (hl : v.locate c.table c.nextAddress = some r) : v.SegmentOf t start (v.segment c r) := by
  obtain rfl := h.table
  have hchunk := toNat_chunk hv hn hl
  have haddr := h.toNat_nextAddress hr
  have ht := index_of_locate hl
  have ok := validate_tableOk hv ht
  obtain ⟨hm, _⟩ := maps_of_locate hv hn hl
  have hc := (AddressRange.contains_iff _ _).1 hm.2
  have hpos : 0 < c.remaining.toNat := toNat_pos.2 hr
  have hstop : (v.upstream c.table r.toNat).stop =
    (v.upstream c.table r.toNat).start.toNat + (v.upstream c.table r.toNat).count.toNat := rfl
  -- the downstream range has the same length, and ends within the address space
  have hcount : (v.upstream c.table r.toNat).count = (v.downstream c.table r.toNat).count := ok.counts _ hm.1
  have hdown : (v.downstream c.table r.toNat).start.toNat + (v.downstream c.table r.toNat).count.toNat ≤ 65536 :=
    ok.downstream_le _ hm.1
  have hoff : (c.nextAddress - (v.upstream c.table r.toNat).start).toNat =
      c.nextAddress.toNat - (v.upstream c.table r.toNat).start.toNat :=
    toNat_sub_of_le hc.1
  have hdownStart : (v.segment c r).downstreamStart.toNat = (v.downstream c.table r.toNat).start.toNat +
      (c.nextAddress.toNat - (v.upstream c.table r.toNat).start.toNat) := by
    show (_ + _ : UInt16).toNat = _
    rw [UInt16.toNat_add, hoff]
    rw [← hcount] at hdown
    omega
  have hcountNat : (v.segment c r).count.toNat = (v.chunk c r).toNat := rfl
  refine ⟨?_, haddr.symm, ?_, rfl, ?_, ?_⟩
  · intro h0
    rw [h0, hchunk] at hcountNat
    simp only [UInt16.toNat_zero] at hcountNat
    omega
  · intro a ha hb i
    rw [hcountNat, hchunk] at hb
    have hlies : v.Lies c.table a r.toNat := by
      refine ⟨ht, hm.1, (AddressRange.contains_iff _ _).2 ?_⟩
      have : c.nextAddress.toNat ≤ a.toNat := ha
      have : a.toNat < c.nextAddress.toNat + _ := hb
      omega
    constructor
    · intro hi
      exact ok.sorted.holds_unique hi.2.1 hlies.2.1 (holds_iff.2 hi.2.2) (holds_iff.2 hlies.2.2)
    · rintro rfl
      exact hlies
  · show (v.segment c r).downstreamStart.toNat + (v.upstream c.table r.toNat).start.toNat =
      (v.downstream c.table r.toNat).start.toNat + c.nextAddress.toNat
    omega
  · rw [hcountNat, hchunk, hdownStart]
    rw [← hcount] at hdown
    omega

omit hv hn in
theorem SpanCursor.past (h : v.SpanCursor t start count c) {q : UInt16} (hq : q.toNat ≤ c.remaining.toNat) :
    v.SpanCursor t start count (past c q) ∧ (past c q).remaining.toNat = c.remaining.toNat - q.toNat ∧
    (past c q).sourceOffset.toNat = c.sourceOffset.toNat + q.toNat := by
  have hsplit := h.split
  have hcount := count.toNat_lt
  have hsub : (c.remaining - q).toNat = c.remaining.toNat - q.toNat := toNat_sub_of_le hq
  have hoff : (c.sourceOffset + q).toNat = c.sourceOffset.toNat + q.toNat := toNat_add_of_lt (by omega)
  refine ⟨⟨h.table, ?_, ?_, h.range_le, ?_⟩, hsub, hoff⟩
  · show c.nextAddress + q = start + (c.sourceOffset + q)
    rw [h.address, UInt16.add_assoc]
  · show (c.sourceOffset + q).toNat + (c.remaining - q).toNat = count.toNat
    omega
  · show v.Routed t (start.toNat + (c.sourceOffset + q).toNat) (c.remaining - q).toNat
    exact h.routed.mono (by omega) (by omega)

omit hv hn in
/-- `next` within a span takes the next segment. -/
theorem next_segment (h : v.SpanCursor t start count c) (hr : c.remaining ≠ 0) :
    ∃ r, v.locate c.table c.nextAddress = some r ∧ v.next c = (some (v.segment c r), RouteTableView.past c (v.chunk c r)) := by
  have hpos : 0 < c.remaining.toNat := toNat_pos.2 hr
  have haddr := h.toNat_nextAddress hr
  obtain ⟨r, hl⟩ := h.routed c.nextAddress (by omega) (by omega)
  rw [← h.table] at hl
  exact ⟨r, hl, by rw [next_eq, if_neg hr, hl]⟩

/-- What is handed out from a cursor of a span on. -/
structure Segmented (v : RouteTableView) (t : RegisterTable) (start : UInt16) (lo hi : Nat)
    (segments : List RouteSegment) : Prop where
  tiles : Tiles (fun s : RouteSegment => s.upstreamStart.toNat) (fun s => s.count.toNat) lo hi segments
  each : ∀ s ∈ segments, v.SegmentOf t start s
  apart : ∀ k s s', segments[k]? = some s → segments[k + 1]? = some s' → s.routeIndex ≠ s'.routeIndex

omit hv hn in
theorem walk_done (h : v.SpanCursor t start count c) (h0 : c.remaining = 0) (calls : Nat) :
    v.walk calls c = ([], c) ∧ v.next c = (none, c) ∧
    v.Segmented t start (start.toNat + c.sourceOffset.toNat) (start.toNat + count.toNat) [] := by
  have hnext : v.next c = (none, c) := by rw [next_eq, if_pos h0]
  have hsplit := h.split
  rw [h0] at hsplit
  refine ⟨?_, hnext, ?_, ?_, ?_⟩
  · cases calls with
    | zero => rfl
    | succ calls => simp only [walk, hnext]
  · show start.toNat + c.sourceOffset.toNat = start.toNat + count.toNat
    simpa using hsplit
  · simp
  · simp

/-- **One segment and the rest of the span.** The rest starts where the segment ended: at the end
of its route, unless the span ends with it. -/
theorem Segmented.cons (h : v.SpanCursor t start count c) (hr : c.remaining ≠ 0) {r : UInt16}
    (hl : v.locate c.table c.nextAddress = some r) {segments : List RouteSegment} {hi : Nat}
    (hrest : v.Segmented t start (start.toNat + (past c (v.chunk c r)).sourceOffset.toNat) hi segments)
    (hhi : hi = start.toNat + count.toNat) :
    v.Segmented t start (start.toNat + c.sourceOffset.toNat) hi (v.segment c r :: segments) := by
  have hchunk := toNat_chunk hv hn hl
  have haddr := h.toNat_nextAddress hr
  have hsplit := h.split
  have hof := segmentOf_locate hv hn h hr hl
  obtain ⟨_, _, hoff⟩ := h.past (q := v.chunk c r) (by omega)
  have hnext : start.toNat + (past c (v.chunk c r)).sourceOffset.toNat =
      start.toNat + c.sourceOffset.toNat + (v.chunk c r).toNat := by omega
  rw [hnext] at hrest
  refine ⟨⟨haddr, hrest.tiles⟩, ?_, ?_⟩
  · intro s hs
    rcases List.mem_cons.1 hs with rfl | hs
    · exact hof
    · exact hrest.each s hs
  · rintro (_ | k) s s' hk hk'
    · obtain rfl : v.segment c r = s := by simpa using hk
      intro heq
      -- a next segment in the same route would start within it
      cases segments with
      | nil => simp at hk'
      | cons s₁ segments =>
        obtain rfl : s₁ = s' := by simpa using hk'
        have hof' := hrest.each s₁ List.mem_cons_self
        have hstart : s₁.upstreamStart.toNat = start.toNat + c.sourceOffset.toNat + (v.chunk c r).toNat := hrest.tiles.1
        have hle : start.toNat + c.sourceOffset.toNat + (v.chunk c r).toNat + s₁.count.toNat ≤ hi := hrest.tiles.2.le
        have hpos : 0 < s₁.count.toNat := toNat_pos.2 hof'.count_ne
        have hin := (hof'.single s₁.upstreamStart (Nat.le_refl _) (by omega) _).2 rfl
        rw [← heq, ← h.table] at hin
        have hc := (AddressRange.contains_iff _ _).1 hin.2.2
        have : (v.segment c r).routeIndex = r := rfl
        simp only [this, AddressRange.stop] at hc hchunk
        omega
    · exact hrest.apart k s s' (by simpa using hk) (by simpa using hk')

theorem walk_segmented (calls : Nat) (h : v.SpanCursor t start count c) (hcalls : c.remaining.toNat ≤ calls) :
    ∃ segments c', v.walk calls c = (segments, c') ∧ v.next c' = (none, c') ∧
      v.Segmented t start (start.toNat + c.sourceOffset.toNat) (start.toNat + count.toNat) segments := by
  induction calls generalizing c with
  | zero =>
    obtain ⟨hw, hn, hs⟩ := walk_done h (UInt16.toNat_inj.1 (Nat.le_zero.1 hcalls)) 0
    exact ⟨[], c, hw, hn, hs⟩
  | succ calls ih =>
    by_cases h0 : c.remaining = 0
    · obtain ⟨hw, hn, hs⟩ := walk_done h h0 (calls + 1)
      exact ⟨[], c, hw, hn, hs⟩
    obtain ⟨r, hl, hnext⟩ := next_segment h h0
    have hchunk := toNat_chunk hv hn hl
    have hof := segmentOf_locate hv hn h h0 hl
    have hpos : 0 < (v.chunk c r).toNat := toNat_pos.2 hof.count_ne
    obtain ⟨hpast, hrem, _⟩ := h.past (q := v.chunk c r) (by omega)
    obtain ⟨segments, c', hw, hn', hs⟩ := ih hpast (by omega)
    refine ⟨v.segment c r :: segments, c', ?_, hn', Segmented.cons hv hn h h0 hl hs rfl⟩
    simp only [walk, hnext, hw]

/-- **`inspectSpan` and the segments of a span are exact.** -/
theorem spans_exact (t : RegisterTable) (start count : UInt16) :
    (∀ s, v.inspectSpan t start count = s ↔ v.Verdict t start count s) ∧
    (v.beginSpan t start count).1 = v.inspectSpan t start count ∧
    (v.inspectSpan t start count = .complete → ∀ calls, count.toNat ≤ calls → ∃ segments c,
      v.walk calls (v.beginSpan t start count).2 = (segments, c) ∧ v.next c = (none, c) ∧
      v.Segmented t start start.toNat (start.toNat + count.toNat) segments) ∧
    (v.inspectSpan t start count ≠ .complete →
      v.next (v.beginSpan t start count).2 = (none, (v.beginSpan t start count).2)) := by
  refine ⟨inspectSpan_verdict hv hn t start count, ?_, ?_, ?_⟩
  · unfold beginSpan
    split <;> simp_all
  · intro hspan calls hcalls
    obtain ⟨_, hle, hrouted⟩ := (inspectSpan_complete hv hn).1 hspan
    have hbegin : (v.beginSpan t start count).2 = ⟨t, start, count, 0⟩ := by simp only [beginSpan, hspan]
    have hcursor : v.SpanCursor t start count ⟨t, start, count, 0⟩ := by
      refine ⟨rfl, ?_, ?_, hle, hrouted⟩
      · simp
      · simp
    rw [hbegin]
    exact walk_segmented hv hn calls hcursor hcalls
  · intro hspan
    have hbegin : (v.beginSpan t start count).2 = {} := by
      unfold beginSpan
      split
      · rename_i h; exact absurd h hspan
      · rfl
    rw [hbegin]
    rfl

end

/-- Three routes of holding registers; the third leaves a gap in front of it. -/
def testTable : RouteTableView :=
  let route (endpoint : UInt8) (upstream downstream count : UInt16) : EndpointRoute :=
    ⟨endpoint, fun t => if t = 2 then ⟨upstream, count⟩ else ⟨0, 0⟩,
      fun t => if t = 2 then ⟨downstream, count⟩ else ⟨0, 0⟩⟩
  ⟨some fun i => if i = 0 then route 4 100 0 4 else if i = 1 then route 9 104 20 3 else route 12 110 7 2, 3⟩

example : testTable.walk 5 (testTable.beginSpan .holdingRegisters 102 5).2 =
    ([⟨0, 4, 102, 2, 2, 0⟩, ⟨1, 9, 104, 20, 3, 2⟩], ⟨.holdingRegisters, 107, 0, 5⟩) := by decide +kernel

theorem spans_exact_test :
    testTable.inspectSpan .holdingRegisters 102 5 = .complete ∧
    (testTable.inspectSpan .holdingRegisters 102 6 = .gap ↔ testTable.Verdict .holdingRegisters 102 6 .gap) ∧
    ∃ segments c, testTable.walk 5 (testTable.beginSpan .holdingRegisters 102 5).2 = (segments, c) ∧
      testTable.next c = (none, c) ∧ testTable.Segmented .holdingRegisters 102 102 107 segments := by
  have hv : testTable.validate = .valid := by decide
  have hn : testTable.routeCount.toNat ≤ 32767 := by decide
  have hspan : testTable.inspectSpan .holdingRegisters 102 5 = .complete := by decide
  exact ⟨hspan, (spans_exact hv hn .holdingRegisters 102 6).1 .gap,
    (spans_exact hv hn .holdingRegisters 102 5).2.2.1 hspan 5 (by decide)⟩

end RouteTableView

end ModbusRTUBridge
