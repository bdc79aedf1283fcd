import ModbusRTUBridge.Fragments
import ModbusRTUBridge.Spans
/-!
# The preflight

`begin` accepts exactly the works that can be planned to the end (`Preflighted`). From there on
`next` has nothing left to refuse: it hands out fragments until the cursor goes inactive, and a
cursor `begin` did not accept hands out none.
-/

namespace ModbusRTUBridge

namespace ForwardPlanner

variable {Value : Type} [AppliedPayload Value] {p : ForwardPlanner} {work : IngressWorkView Value}
  {session : SessionStateView} {c : ForwardCursor Value}

/-- What a span policy asks of a work's range. -/
def PolicyAllows (p : ForwardPlanner) (work : IngressWorkView Value) : ForwardSpanPolicy → Prop
  | .singleEndpoint => ∃ i, ∀ a : UInt16, work.start.toNat ≤ a.toNat → a.toNat < work.start.toNat + work.count.toNat →
      p.routes.Lies (WorkTraits.table Value) a i
  | .preflightAndSplit => True
  | .unknown _ => False

/-- Everything `begin` asks of a work besides its session. -/
structure Preflighted (p : ForwardPlanner) (work : IngressWorkView Value) : Prop where
  accepted : isAccepted work.delivery = true
  count_pos : 0 < work.count.toNat
  range_le : work.start.toNat + work.count.toNat ≤ 65536
  snapshot_ne : work.snapshot.values ≠ .null
  snapshot_count : work.snapshot.count = work.count
  limit_pos : 0 < (WorkTraits.maxQuantity Value p.options).toNat
  covered : ∀ a : UInt16, work.start.toNat ≤ a.toNat → a.toNat < work.start.toNat + work.count.toNat →
    ∃ i, p.routes.Lies (WorkTraits.table Value) a i
  policy : p.PolicyAllows work (p.spanPolicy work.delivery)

/-! ## `begin` -/

/-- The single endpoint check (`ForwardPlan.h:299-312`). -/
theorem singleEndpoint_iff (hp : p.RoutesOk) (hpos : 0 < work.count.toNat)
    (hrange : work.start.toNat + work.count.toNat ≤ 65536) {r : UInt16}
    (hl : p.routes.locate (WorkTraits.table Value) work.start = some r) :
    ¬ work.start.toUInt32 + work.count.toUInt32 > (p.routes.upstream (WorkTraits.table Value) r.toNat).endAddress ↔
      p.PolicyAllows work .singleEndpoint := by
  have h1 := work.start.toNat_lt
  have h2 := work.count.toNat_lt
  obtain ⟨ht, hm⟩ := (RouteTableView.locate_iff_lies hp.valid hp.small).1 hl
  have hc := (AddressRange.contains_iff _ _).1 hm.2
  rw [gt_iff_lt, UInt32.lt_iff_toNat_lt, AddressRange.toNat_endAddress, UInt32.toNat_add, UInt16.toNat_toUInt32,
    UInt16.toNat_toUInt32, Nat.not_lt]
  constructor
  · intro hle
    refine ⟨r.toNat, fun a ha hb => ⟨ht, hm.1, (AddressRange.contains_iff _ _).2 ?_⟩⟩
    omega
  · rintro ⟨i, hall⟩
    have hfirst := hall work.start (Nat.le_refl _) (by omega)
    obtain rfl : r.toNat = i := (RouteTableView.validate_tableOk hp.valid ht).sorted.holds_unique hm.1 hfirst.2.1
      (RouteTableView.holds_iff.2 hm.2) (RouteTableView.holds_iff.2 hfirst.2.2)
    obtain ⟨last, hlast⟩ : ∃ last : UInt16, last.toNat = work.start.toNat + work.count.toNat - 1 :=
      ⟨.ofNat (work.start.toNat + work.count.toNat - 1), by rw [UInt16.toNat_ofNat']; omega⟩
    have := (AddressRange.contains_iff _ _).1 (hall last (by omega) (by omega)).2.2
    omega

/-- **`begin` is exact.** -/
theorem begin_ready_iff (hp : p.RoutesOk) : (p.begin work).1 = .ready ↔ p.Preflighted work := by
  have hsum : (work.start.toUInt32 + work.count.toUInt32).toNat = work.start.toNat + work.count.toNat := by
    have h1 := work.start.toNat_lt
    have h2 := work.count.toNat_lt
    simp only [UInt32.toNat_add, UInt16.toNat_toUInt32]
    omega
  unfold begin
  split
  · rename_i hacc
    simp only [reduceCtorEq, false_iff]
    intro h
    simp [h.accepted] at hacc
  rename_i hacc
  split
  · rename_i h0
    simp only [reduceCtorEq, false_iff]
    exact fun h => toNat_pos.1 h.count_pos h0
  rename_i hcount
  split
  · rename_i hover
    simp only [reduceCtorEq, false_iff]
    intro h
    have := h.range_le
    rw [gt_iff_lt, UInt32.lt_iff_toNat_lt, hsum] at hover
    exact absurd this (Nat.not_le.2 hover)
  rename_i hover
  split
  · rename_i hsnap
    simp only [reduceCtorEq, false_iff]
    intro h
    simp [ImmutableSnapshotView.validFor, h.snapshot_ne, h.snapshot_count, hcount] at hsnap
  rename_i hsnap
  split
  · rename_i hlimit
    simp only [reduceCtorEq, false_iff]
    exact fun h => toNat_pos.1 h.limit_pos hlimit
  rename_i hlimit
  simp only
  split
  · rename_i hspan
    have hmap : ∀ s, s ≠ RoutedSpanStatus.complete → mapSpanStatus s ≠ .ready := by
      intro s hs
      cases s <;> first | exact absurd rfl hs | decide
    simp only [hmap _ hspan, false_iff]
    intro h
    exact hspan ((RouteTableView.inspectSpan_verdict hp.valid hp.small _ _ _ _).2 ⟨hcount, h.range_le, h.covered⟩)
  rename_i hspan
  obtain ⟨_, hle, hcovered⟩ := (RouteTableView.inspectSpan_verdict hp.valid hp.small _ _ _ _).1 (Decidable.not_not.1 hspan)
  have hpos := toNat_pos.2 hcount
  simp only [ImmutableSnapshotView.validFor, Bool.not_eq_true', Bool.not_eq_false, Bool.and_eq_true, bne_iff_ne,
    beq_iff_eq] at hsnap hacc
  -- what is left is the policy
  suffices hpolicy : _ ↔ p.PolicyAllows work (p.spanPolicy work.delivery) from hpolicy.trans
    ⟨fun h => ⟨hacc, hpos, hle, hsnap.1.2, hsnap.2, toNat_pos.2 hlimit, hcovered, h⟩, fun h => h.policy⟩
  split
  · rename_i hsingle
    obtain ⟨r, hl⟩ := (RouteTableView.exists_locate hp.valid hp.small).2 (hcovered work.start (Nat.le_refl _) (by omega))
    rw [hl, hsingle, ← singleEndpoint_iff hp hpos hle hl]
    simp only
    split <;> simp_all
  · rename_i hsplit
    simp [hsplit, PolicyAllows]
  · rename_i hunknown
    simp [hunknown, PolicyAllows]

theorem begin_status_cursor_in (p : ForwardPlanner) (work : IngressWorkView Value) (session : SessionStateView) :
    (p.beginIn work session).2 = if (p.beginIn work session).1 = .ready then startCursor work else {} := by
  unfold beginIn
  split
  · rfl
  · exact begin_status_cursor p work

theorem beginIn_ready_iff (hp : p.RoutesOk) (session : SessionStateView) :
    (p.beginIn work session).1 = .ready ↔ workCurrent work.identity session = true ∧ p.Preflighted work := by
  unfold beginIn
  split
  · rename_i hcurrent
    simp at hcurrent
    simp [hcurrent]
  · rename_i hcurrent
    simp at hcurrent
    rw [begin_ready_iff hp]
    simp [hcurrent]

/-! ## After `begin` -/

/-- The cursor after some calls of `next`, each with its own memory and request sequence. -/
def after (p : ForwardPlanner) (c : ForwardCursor Value) : List (Memory × UInt32) → ForwardCursor Value
  | [] => c
  | call :: calls => after p (p.next call.1 c call.2).2.1 calls

/-- What the calls after a `Ready` keep: the work, and the cursor within it. -/
structure Underway (p : ForwardPlanner) (work : IngressWorkView Value) (c : ForwardCursor Value) : Prop where
  work : c.work = work
  plannable : p.Plannable c.work
  position : Position c

/-- One call: it plans a fragment, or there is none left. -/
theorem next_underway [LawfulPayload Value] (hp : p.RoutesOk) (h : p.Underway work c) (mem : Memory)
    {sequence : UInt32} (hs : sequence ≠ 0) :
    (p.next mem c sequence).1 = (if c.active then .planned else .complete) ∧
    p.Underway work (p.next mem c sequence).2.1 ∧
    (p.next mem c sequence).2.1.remaining.toNat ≤ c.remaining.toNat - 1 := by
  by_cases hr : c.remaining = 0
  · have hact : c.active = false := h.position.inactive hr
    have hnext : p.next mem c sequence = (.complete, c, {}) := by
      rw [next_eq, if_pos (Or.inr hr), ← hact]
    rw [hnext, hact]
    exact ⟨rfl, h, by simp [hr]⟩
  · obtain ⟨r, hfrag, hnext⟩ := next_planned hp h.plannable h.position hr mem hs
    have hact : c.active = true := h.position.active_iff.2 hr
    rw [hnext, hact]
    refine ⟨rfl, ⟨h.work, h.plannable, advance_position h.position hr hfrag.pos hfrag.le_remaining⟩, ?_⟩
    show (c.remaining - p.fragmentSize c r).toNat ≤ c.remaining.toNat - 1
    have := hfrag.pos
    rw [toNat_remaining_sub hfrag.le_remaining]
    omega

theorem after_underway [LawfulPayload Value] (hp : p.RoutesOk) (calls : List (Memory × UInt32))
    (hs : ∀ call ∈ calls, call.2 ≠ 0) (h : p.Underway work c) :
    p.Underway work (p.after c calls) ∧ (p.after c calls).remaining.toNat ≤ c.remaining.toNat - calls.length := by
  induction calls generalizing c with
  | nil => exact ⟨h, by simp [after]⟩
  | cons call calls ih =>
    obtain ⟨_, hunder, hrem⟩ := next_underway hp h call.1 (hs call List.mem_cons_self)
    obtain ⟨hafter, hrem'⟩ := ih (fun call' hc => hs call' (List.mem_cons_of_mem call hc)) hunder
    refine ⟨hafter, ?_⟩
    simp only [after, List.length_cons]
    omega

theorem start_underway [LawfulPayload Value] (hp : p.RoutesOk) (hready : (p.begin work).1 = .ready) :
    (p.begin work).2 = startCursor work ∧ p.Underway work (startCursor work) := by
  have hbegin := begin_status_cursor p work
  rw [if_pos hready] at hbegin
  have hwork := begin_ready hp hready
  exact ⟨hbegin, rfl, hwork, startCursor_position hwork.count_ne⟩

/-- One call for each element is enough. -/
theorem after_inactive [LawfulPayload Value] (hp : p.RoutesOk) (h : p.Underway work (startCursor work))
    {calls : List (Memory × UInt32)} (hs : ∀ call ∈ calls, call.2 ≠ 0) (hlen : work.count.toNat ≤ calls.length) :
    (p.after (startCursor work) calls).active = false := by
  obtain ⟨hunder, hrem⟩ := after_underway hp calls hs h
  have hcount : (startCursor work).remaining = work.count := rfl
  rw [hcount] at hrem
  refine hunder.position.inactive (UInt16.toNat_inj.1 ?_)
  rw [UInt16.toNat_zero]
  omega

/-- **The preflight is exact and atomic.** -/
theorem preflight_exact [LawfulPayload Value] (hp : p.RoutesOk) (work : IngressWorkView Value)
    (session : SessionStateView) :
    ((p.beginIn work session).1 = .ready ↔ workCurrent work.identity session = true ∧ p.Preflighted work) ∧
    ((p.beginIn work session).1 = .ready → (p.beginIn work session).2.active = true ∧
      ∀ calls : List (Memory × UInt32), (∀ call ∈ calls, call.2 ≠ 0) →
        (∀ mem sequence, sequence ≠ 0 → (p.next mem (p.after (p.beginIn work session).2 calls) sequence).1 =
          if (p.after (p.beginIn work session).2 calls).active then .planned else .complete) ∧
        (work.count.toNat ≤ calls.length → (p.after (p.beginIn work session).2 calls).active = false)) ∧
    ((p.beginIn work session).1 ≠ .ready → (p.beginIn work session).2.active = false ∧
      ∀ mem sequence, p.next mem (p.beginIn work session).2 sequence = (.complete, (p.beginIn work session).2, {})) := by
  refine ⟨beginIn_ready_iff hp session, ?_, ?_⟩
  · intro hready
    have hbegin := begin_status_cursor_in p work session
    rw [if_pos hready] at hbegin
    obtain ⟨_, hpre⟩ := (beginIn_ready_iff hp session).1 hready
    obtain ⟨_, hstart⟩ := start_underway hp ((begin_ready_iff hp).2 hpre)
    rw [hbegin]
    refine ⟨rfl, ?_⟩
    intro calls hcalls
    constructor
    · intro mem sequence hs
      exact (next_underway hp (after_underway hp calls hcalls hstart).1 mem hs).1
    · exact after_inactive hp hstart hcalls
  · intro hne
    have hbegin := begin_status_cursor_in p work session
    rw [if_neg hne] at hbegin
    rw [hbegin]
    exact ⟨rfl, fun _ _ => rfl⟩

/-- Requests of at most two registers over `RouteTableView.testTable`. -/
def testPlanner : ForwardPlanner := ⟨RouteTableView.testTable, ⟨8, 2, .singleEndpoint, .preflightAndSplit⟩⟩

/-- Five registers in two routes. -/
def splitWork : HoldingIngressWorkView := makeIngressWork ⟨1, 9⟩ 102 5 .latestState ⟨1, 0⟩

theorem testPlanner_routesOk : testPlanner.RoutesOk := ⟨by decide, by decide⟩

theorem preflight_exact_test : (testPlanner.beginIn splitWork ⟨true, 9, 9, .ready⟩).1 = .ready ∧
    testPlanner.Preflighted splitWork ∧
    (testPlanner.after (testPlanner.beginIn splitWork ⟨true, 9, 9, .ready⟩).2
      (List.replicate 5 (⟨fun _ => false, fun _ => 0⟩, 1))).active = false := by
  have hready : (testPlanner.beginIn splitWork ⟨true, 9, 9, .ready⟩).1 = .ready := by decide
  obtain ⟨hiff, hall, _⟩ := preflight_exact testPlanner_routesOk splitWork ⟨true, 9, 9, .ready⟩
  obtain ⟨_, hcalls⟩ := hall hready
  refine ⟨hready, (hiff.1 hready).2, (hcalls (List.replicate 5 (⟨fun _ => false, fun _ => 0⟩, 1)) ?_).2 (by decide)⟩
  intro call hc
  rw [List.eq_of_mem_replicate hc]
  decide

end ForwardPlanner

end ModbusRTUBridge
