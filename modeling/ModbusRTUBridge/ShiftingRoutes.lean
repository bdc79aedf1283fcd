import ModbusRTUBridge.Lookup
import ModbusRTUBridge.Preflight
/-!
# Planning over shifting routes

The route storage belongs to the caller, who may replace it between two calls of `next`. The
planner then looks up whatever table it finds: the fragments may go to the wrong place, but they
stay inside the snapshot. What keeps them there is the cursor alone (`Position`); the lengths
computed from the table can only shorten a fragment, and a length of zero ends the plan.
-/

namespace ModbusRTUBridge

/-- Up to 32767 routes, in any order, a lookup ends inside the table. -/
theorem RouteTableView.exists_locateRun {v : RouteTableView} (hn : v.routeCount.toNat ≤ 32767) (t : RegisterTable)
    (a : UInt16) : ∃ reads answer, v.LocateRun t a reads answer ∧ v.locate t a = answer ∧
      ∀ i ∈ reads, i < v.routeCount.toNat := by
  by_cases hbad : v.routes.isNone = true ∨ t.index ≥ RegisterTable.count
  · have hrun : v.LocateRun t a [] none := by
      unfold LocateRun
      rw [if_pos hbad]
      exact ⟨rfl, rfl⟩
    exact ⟨[], none, hrun, locate_of_run hrun (by decide), by simp⟩
  simp only [not_or, Nat.not_le] at hbad
  have hsome : v.routes.isNone = false := Bool.eq_false_iff.2 hbad.1
  have hhigh := initial_high v.routeCount.toNat v.routeCount.toNat_lt
  rw [if_pos (by omega)] at hhigh
  obtain ⟨reads, answer, hrun, hlen, hin⟩ := SearchRun.exists_run (v.upstream t) a v.routeCount.toNat 0
    (v.routeCount.toNat - 1) (by omega) (by omega) (by omega) (by omega)
  have hrun' : v.LocateRun t a reads answer := by
    rw [locateRun_iff hsome hbad.2, hhigh]
    exact hrun
  have hfuel : reads.length < locateFuel := by
    simp only [locateFuel]
    omega
  refine ⟨reads, answer, hrun', locate_of_run hrun' hfuel, ?_⟩
  intro i hi
  have := hin i hi
  omega

namespace ForwardPlanner

variable {Value : Type} [AppliedPayload Value] {p : ForwardPlanner} {options : ForwardPlanOptions}
  {work : IngressWorkView Value} {c : ForwardCursor Value}

/-! ## One call -/

theorem fragmentSize_le (p : ForwardPlanner) (c : ForwardCursor Value) (r : UInt16) :
    (p.fragmentSize c r).toNat ≤ c.remaining.toNat ∧
    (p.fragmentSize c r).toNat ≤ (WorkTraits.maxQuantity Value p.options).toNat := by
  simp only [fragmentSize, gt_iff_lt, UInt16.lt_iff_toNat_lt]
  repeat' split
  all_goals omega

/-- A request for elements of the snapshot, and for the addresses they were written to. -/
structure WithinSnapshot (work : IngressWorkView Value) (limit : UInt16) (r : PlannedWriteRequest) : Prop where
  pos : 0 < r.quantity.toNat
  le_limit : r.quantity.toNat ≤ limit.toNat
  address : r.upstreamStart.toNat = work.start.toNat + r.sourceOffset.toNat
  le_count : r.sourceOffset.toNat + r.quantity.toNat ≤ work.count.toNat
  values : AppliedPayload.values Value r = work.snapshot.values.add r.sourceOffset.toNat
  final : r.finalFragment = true ↔ r.sourceOffset.toNat + r.quantity.toNat = work.count.toNat

/-- A cursor of `work`, wherever the routes may be. -/
structure Within (work : IngressWorkView Value) (c : ForwardCursor Value) : Prop where
  work : c.work = work
  range_le : c.work.start.toNat + c.work.count.toNat ≤ 65536
  position : Position c

omit [AppliedPayload Value] in
/-- A finished or abandoned plan stays so. -/
theorem next_ended [AppliedPayload Value] (mem : Memory) (p : ForwardPlanner) (hact : c.active = false) (sequence : UInt32) :
    p.next mem c sequence = (.complete, c, {}) := by
  rw [next_eq, if_pos (Or.inl (by simp [hact])), ← hact]

/-- **One call, any table.** It plans a fragment of the snapshot at the cursor, or abandons the
plan, or there was nothing left. -/
theorem next_within [LawfulPayload Value] (mem : Memory) (p : ForwardPlanner) (h : Within work c) {sequence : UInt32}
    (hs : sequence ≠ 0) :
    (c.remaining = 0 ∧ p.next mem c sequence = (.complete, c, {})) ∨
    (∃ c', c'.active = false ∧ p.next mem c sequence = (.topologyChanged, c', {})) ∨
    (∃ r c', p.next mem c sequence = (.planned, c', r) ∧
      WithinSnapshot work (WorkTraits.maxQuantity Value p.options) r ∧ r.sourceOffset = c.sourceOffset ∧
      Within work c' ∧ c'.sourceOffset.toNat = c.sourceOffset.toNat + r.quantity.toNat) := by
  by_cases hr : c.remaining = 0
  · have hact : c.active = false := h.position.inactive hr
    exact Or.inl ⟨hr, next_ended mem p hact sequence⟩
  have hact : c.active = true := h.position.active_iff.2 hr
  rw [next_eq, if_neg (by simp [hact, hr]), if_neg (by simp [hs])]
  split
  · exact Or.inr (Or.inl ⟨_, rfl, rfl⟩)
  rename_i r _
  by_cases hzero : p.fragmentSize c r = 0
  · rw [if_pos hzero]
    exact Or.inr (Or.inl ⟨_, rfl, rfl⟩)
  rw [if_neg hzero]
  obtain ⟨hrem, hlimit⟩ := fragmentSize_le p c r
  obtain ⟨_, _, _, hup, hquantity, hoffset, hfinal, hvalues⟩ := fragmentRequest_fields mem p c r (p.fragmentSize c r) sequence
  have hpos := toNat_pos.2 hzero
  have haddr := h.position.toNat_nextAddress h.range_le hr
  have hsplit := h.position.split
  have hcount := c.work.count.toNat_lt
  refine Or.inr (Or.inr ⟨_, _, rfl, ?_, hoffset, ⟨h.work, h.range_le, advance_position h.position hr hpos hrem⟩, ?_⟩)
  · obtain rfl := h.work
    refine ⟨?_, ?_, ?_, ?_, ?_, ?_⟩
    · rw [hquantity]
      exact hpos
    · rw [hquantity]
      exact hlimit
    · rw [hup, hoffset]
      exact haddr
    · rw [hquantity, hoffset]
      omega
    · rw [hvalues, hoffset]
    · rw [hfinal, beq_iff_eq, ← UInt16.toNat_inj, hquantity, hoffset]
      omega
  · show (c.sourceOffset + p.fragmentSize c r).toNat = _
    rw [hquantity, UInt16.toNat_add]
    omega

/-! ## Any number of calls -/

/-- One call of `next`: what it finds in the route storage and in memory, and its sequence. -/
structure Turn where
  routes : RouteTableView
  mem : Memory
  sequence : UInt32

/-- What a sequence of calls returns. -/
def drive (options : ForwardPlanOptions) (c : ForwardCursor Value) :
    List Turn → List (ForwardNextStatus × PlannedWriteRequest)
  | [] => []
  | turn :: turns =>
    let result := ForwardPlanner.next turn.mem ⟨turn.routes, options⟩ c turn.sequence
    (result.1, result.2.2) :: drive options result.2.1 turns

theorem drive_ended (hact : c.active = false) (turns : List Turn) :
    ∀ x ∈ drive options c turns, x = (.complete, {}) := by
  induction turns with
  | nil => simp [drive]
  | cons turn turns ih =>
    intro x hx
    simp only [drive, next_ended turn.mem ⟨turn.routes, options⟩ hact] at hx
    rcases List.mem_cons.1 hx with rfl | hx
    · rfl
    · exact ih x hx

/-- Results of a plan from `offset` on: fragments one after the other, up to `upto`, then nothing
more but `Complete`. Before the end of the work that takes a `TopologyChanged` first. -/
structure Contained (work : IngressWorkView Value) (limit : UInt16) (offset upto : Nat) (requests : List PlannedWriteRequest)
    (tail : List (ForwardNextStatus × PlannedWriteRequest)) : Prop where
  tiles : Tiles (fun r : PlannedWriteRequest => r.upstreamStart.toNat) (fun r => r.quantity.toNat)
    (work.start.toNat + offset) (work.start.toNat + upto) requests
  le_count : upto ≤ work.count.toNat
  each : ∀ r ∈ requests, WithinSnapshot work limit r
  tail : tail = [] ∨ (upto = work.count.toNat ∧ ∀ x ∈ tail, x = (.complete, {})) ∨
    ∃ rest, tail = (.topologyChanged, {}) :: rest ∧ ∀ x ∈ rest, x = (.complete, {})

theorem drive_contained [LawfulPayload Value] (options : ForwardPlanOptions) (turns : List Turn)
    (hs : ∀ turn ∈ turns, turn.sequence ≠ 0) (h : Within work c) : ∃ requests tail upto,
      drive options c turns = requests.map (fun r => (.planned, r)) ++ tail ∧
      Contained work (WorkTraits.maxQuantity Value options) c.sourceOffset.toNat upto requests tail := by
  have hsplit := h.position.split
  have hcount : c.sourceOffset.toNat ≤ work.count.toNat := by
    rw [← h.work]
    omega
  induction turns generalizing c with
  | nil => exact ⟨[], [], c.sourceOffset.toNat, rfl, rfl, hcount, by simp, Or.inl rfl⟩
  | cons turn turns ih =>
    have hs' : ∀ turn' ∈ turns, turn'.sequence ≠ 0 := fun turn' hm => hs turn' (List.mem_cons_of_mem turn hm)
    rcases next_within turn.mem ⟨turn.routes, options⟩ h (hs turn List.mem_cons_self) with
      ⟨h0, hnext⟩ | ⟨c', hact, hnext⟩ | ⟨r, c', hnext, hr, hat, hc', hoff⟩
    · -- nothing left, and nothing will be
      have hact : c.active = false := h.position.inactive h0
      refine ⟨[], drive options c (turn :: turns), c.sourceOffset.toNat, rfl, rfl, hcount, by simp, ?_⟩
      refine Or.inr (Or.inl ⟨?_, drive_ended hact (turn :: turns)⟩)
      rw [h0] at hsplit
      rw [← h.work]
      simpa using hsplit
    · refine ⟨[], drive options c (turn :: turns), c.sourceOffset.toNat, rfl, rfl, hcount, by simp, ?_⟩
      refine Or.inr (Or.inr ⟨drive options c' turns, ?_, drive_ended hact turns⟩)
      simp only [drive, hnext]
    · obtain ⟨requests, tail, upto, hdrive, hrest⟩ := ih hs' hc' hc'.position.split (by
        rw [hoff, ← hat]
        exact hr.le_count)
      refine ⟨r :: requests, tail, upto, ?_, ?_, hrest.le_count, ?_, hrest.tail⟩
      · simp only [drive, hnext, hdrive, List.map_cons, List.cons_append]
      · have htail := hrest.tiles
        rw [hoff, ← Nat.add_assoc] at htail
        exact ⟨by rw [← hat]; exact hr.address, htail⟩
      · intro r' hr'
        rcases List.mem_cons.1 hr' with rfl | hr'
        · exact hr
        · exact hrest.each r' hr'

/-- **Planning stays inside the snapshot**, whatever happens to the routes. -/
theorem planning_contained [LawfulPayload Value] (hready : (p.begin work).1 = .ready) (turns : List Turn)
    (hturns : ∀ turn ∈ turns, turn.routes.routeCount.toNat ≤ 32767 ∧ turn.sequence ≠ 0) :
    (∀ turn ∈ turns, ∀ a, ∃ reads answer, turn.routes.LocateRun (WorkTraits.table Value) a reads answer ∧
      turn.routes.locate (WorkTraits.table Value) a = answer ∧ ∀ i ∈ reads, i < turn.routes.routeCount.toNat) ∧
    ∃ requests tail upto,
      drive p.options (p.begin work).2 turns = requests.map (fun r => (.planned, r)) ++ tail ∧
      requests.length ≤ work.count.toNat ∧
      Contained work (WorkTraits.maxQuantity Value p.options) 0 upto requests tail := by
  have hbegin := begin_status_cursor p work
  rw [if_pos hready] at hbegin
  obtain ⟨_, hcount, hrange, _⟩ := begin_accepts hready
  have hstart : Within work (startCursor work) := ⟨rfl, hrange, startCursor_position hcount⟩
  constructor
  · intro turn hm a
    exact RouteTableView.exists_locateRun (hturns turn hm).1 _ a
  · rw [hbegin]
    obtain ⟨requests, tail, upto, hdrive, hcontained⟩ :=
      drive_contained p.options turns (fun turn hm => (hturns turn hm).2) hstart
    have hlen := hcontained.tiles.length_le fun r hr => (hcontained.each r hr).pos
    have hle := hcontained.le_count
    refine ⟨requests, tail, upto, hdrive, ?_, hcontained⟩
    omega

/-- The table the plan began on, then overlapping routes that end past the address space, then none. -/
def testTurns : List Turn :=
  let mem : Memory := ⟨fun _ => false, fun _ => 0⟩
  [⟨RouteTableView.testTable, mem, 1⟩,
   ⟨⟨some fun i => ⟨7, fun _ => ⟨.ofNat (100 + i), 65535⟩, fun _ => ⟨65535, 2⟩⟩, 2⟩, mem, 2⟩,
   ⟨⟨none, 0⟩, mem, 3⟩]

example : (drive testPlanner.options (testPlanner.begin splitWork).2 testTurns).map (·.1) =
    [.planned, .planned, .topologyChanged] := by decide +kernel

theorem planning_contained_test : (testPlanner.begin splitWork).1 = .ready ∧ ∃ requests tail upto,
    drive testPlanner.options (testPlanner.begin splitWork).2 testTurns = requests.map (fun r => (.planned, r)) ++ tail ∧
    requests.length ≤ 5 ∧ Contained splitWork 2 0 upto requests tail := by
  have hready : (testPlanner.begin splitWork).1 = .ready := by decide
  have hturns : ∀ turn ∈ testTurns, turn.routes.routeCount.toNat ≤ 32767 ∧ turn.sequence ≠ 0 := by
    intro turn hm
    simp only [testTurns, List.mem_cons, List.not_mem_nil, or_false] at hm
    rcases hm with rfl | rfl | rfl <;> exact ⟨by decide, by decide⟩
  exact ⟨hready, (planning_contained hready testTurns hturns).2⟩

end ForwardPlanner

end ModbusRTUBridge
