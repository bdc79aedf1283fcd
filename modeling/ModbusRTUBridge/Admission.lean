import ModbusRTUBridge.Preflight
import ModbusRTUBridge.WorkLine
/-!
# What a facade takes in

`admitWork` asks one thing after the other: is there room in the queue, can the whole range be
planned in this session, does the ledger know the work already, has it a slot left. `Welcome` is what
that comes to, in the words the headers offer a caller who wants to ask beforehand
(`admissionOpen`, `validAcceptedShape`, `isKnownForwardSpanPolicy`); the facade uses none of them.
-/

namespace ModbusRTUBridge

/-- A work is current exactly in an open session of its own generation. -/
theorem workCurrent_iff_open {work : WorkIdentity} {session : SessionStateView} :
    workCurrent work session = true ↔
      admissionOpen session = true ∧ work.sourceToken ≠ 0 ∧ work.sessionGeneration = session.currentGeneration := by
  simp only [workCurrent, admissionOpen, WorkIdentity.valid, Bool.and_eq_true, bne_iff_ne, beq_iff_eq, ne_eq]
  constructor
  · rintro ⟨⟨⟨⟨⟨htoken, hgen⟩, hactive⟩, hown⟩, happlied⟩, hphase⟩
    exact ⟨⟨⟨⟨hactive, hown ▸ hgen⟩, happlied⟩, hphase⟩, htoken, hown⟩
  · rintro ⟨⟨⟨⟨hactive, hgen⟩, happlied⟩, hphase⟩, htoken, hown⟩
    exact ⟨⟨⟨⟨⟨htoken, hown ▸ hgen⟩, hactive⟩, hown⟩, happlied⟩, hphase⟩

theorem validAcceptedShape_iff {Value : Type} {work : IngressWorkView Value} :
    work.validAcceptedShape = true ↔
      isAccepted work.delivery = true ∧ (work.count ≠ 0 ∧ work.snapshot.values ≠ .null ∧ work.snapshot.count = work.count) ∧
      work.start.toNat + work.count.toNat ≤ 65536 := by
  have h1 := work.start.toNat_lt
  have h2 := work.count.toNat_lt
  have hsum : (work.start.toUInt32 + work.count.toUInt32).toNat = work.start.toNat + work.count.toNat := by
    simp only [UInt32.toNat_add, UInt16.toNat_toUInt32]
    omega
  simp only [IngressWorkView.validAcceptedShape, ImmutableSnapshotView.validFor, Bool.and_eq_true, bne_iff_ne, beq_iff_eq,
    decide_eq_true_eq, UInt32.le_iff_toNat_le, hsum, and_assoc]
  rfl

namespace ForwardPlanner

variable {Value : Type} [AppliedPayload Value] {p : ForwardPlanner} {work : IngressWorkView Value}

/-- The routes cover the work's range, a single one where the policy asks for that, and a request may
carry something. -/
structure Routed (p : ForwardPlanner) (work : IngressWorkView Value) : Prop where
  limit : WorkTraits.maxQuantity Value p.options ≠ 0
  covered : ∀ a : UInt16, work.start.toNat ≤ a.toNat → a.toNat < work.start.toNat + work.count.toNat →
    ∃ i, p.routes.Lies (WorkTraits.table Value) a i
  policy : isKnownForwardSpanPolicy (p.spanPolicy work.delivery) = true
  endpoint : p.spanPolicy work.delivery = .singleEndpoint →
    ∃ i, ∀ a : UInt16, work.start.toNat ≤ a.toNat → a.toNat < work.start.toNat + work.count.toNat →
      p.routes.Lies (WorkTraits.table Value) a i

theorem policyAllows_iff (policy : ForwardSpanPolicy) :
    p.PolicyAllows work policy ↔ isKnownForwardSpanPolicy policy = true ∧
      (policy = .singleEndpoint → p.PolicyAllows work .singleEndpoint) := by
  cases policy <;> simp [PolicyAllows, isKnownForwardSpanPolicy]

theorem preflighted_iff : p.Preflighted work ↔ work.validAcceptedShape = true ∧ p.Routed work := by
  rw [validAcceptedShape_iff]
  constructor
  · intro h
    obtain ⟨hknown, hsingle⟩ := (policyAllows_iff _).1 h.policy
    exact ⟨⟨h.accepted, ⟨toNat_pos.1 h.count_pos, h.snapshot_ne, h.snapshot_count⟩, h.range_le⟩,
      ⟨toNat_pos.1 h.limit_pos, h.covered, hknown, hsingle⟩⟩
  · rintro ⟨⟨hacc, ⟨hcount, hsnap, hsnapCount⟩, hrange⟩, h⟩
    exact ⟨hacc, toNat_pos.2 hcount, hrange, hsnap, hsnapCount, toNat_pos.2 h.limit, h.covered,
      (policyAllows_iff _).2 ⟨h.policy, h.endpoint⟩⟩

end ForwardPlanner

/-- A line takes in what it has room for, can plan and does not know, and puts it last. -/
theorem WorkLine.admitWork_spec (m : WorkLine) (work : Ingress) (session : SessionStateView) (ctx : Ptr)
    (hsize : m.queue.length ≤ m.workCapacity) :
    ((m.admitWork work session ctx).1.status = .admitted ↔
      work.admissible m.forwardPlanner session = .ready ∧ work.identity ∉ m.queue.map (·.workIdentity) ∧
      m.queue.length < m.workCapacity ∧ m.queue.length < m.ledgerCapacity) ∧
    ((m.admitWork work session ctx).1.status = .admitted →
      (m.admitWork work session ctx).2.queue = m.queue ++ [work.slot ctx]) := by
  unfold admitWork
  by_cases hfull : m.queue.length = m.workCapacity
  · simp [hfull]
  have hroom : m.queue.length < m.workCapacity := by omega
  by_cases hready : work.admissible m.forwardPlanner session = .ready
  swap
  · simp [hfull, hready]
  by_cases hknown : work.identity ∈ m.queue.map (·.workIdentity)
  · simp [hfull, hready, hknown]
  by_cases hslot : m.queue.length < m.ledgerCapacity
  · simp only [hfull, hready, hknown, hslot, hroom, ne_eq, not_true_eq_false, if_false, if_true, not_false_eq_true,
      and_self, true_and]
    exact fun _ => rfl
  · simp [hfull, hready, hknown, hslot]

namespace StoreForwardBridge

/-- What a facade wants of a work it is to take in. -/
structure Welcome {Value : Type} [AppliedPayload Value] (b : StoreForwardBridge) (work : IngressWorkView Value)
    (session : SessionStateView) : Prop where
  sessionOpen : admissionOpen session = true
  identity : work.identity.sourceToken ≠ 0 ∧ work.identity.sessionGeneration = session.currentGeneration
  shape : work.validAcceptedShape = true
  routed : b.forwardPlanner.Routed work
  /-- No work that waits has the identity. -/
  fresh : work.identity ∉ b.queue.map (·.workIdentity)
  queueRoom : b.queue.length < b.workQueue.capacity.toNat
  ledgerRoom : b.queue.length < b.completionLedger.capacity.toNat

/-- The work is admitted exactly if it is welcome, and then waits behind the others; else nothing
happens. -/
structure AdmitsExactly {Value : Type} [AppliedPayload Value] (b : StoreForwardBridge) (work : IngressWorkView Value)
    (session : SessionStateView) (ctx : Ptr) : Prop where
  admitted : (b.admitWork work session ctx).1.status = .admitted ↔ Welcome b work session
  queued : Welcome b work session → (b.admitWork work session ctx).2.queue = b.queue ++ [freshSlot work ctx]
  refused : ¬ Welcome b work session → (b.admitWork work session ctx).2 = b

variable {b : StoreForwardBridge}

theorem Coherent.admitsExactly {Value : Type} [AppliedPayload Value] [LawfulPayload Value] (h : b.Coherent)
    (session : SessionStateView) (ctx : Ptr) (work : IngressWorkView Value) {w : Ingress} (hid : w.identity = work.identity)
    (hplan : w.admissible b.forwardPlanner session = (b.forwardPlanner.beginIn work session).1)
    (hslot : w.slot ctx = freshSlot work ctx) : AdmitsExactly b work session ctx := by
  obtain ⟨hresult, hline⟩ := h.admitWork_line session ctx work hid hplan hslot
  have hsize : b.line.queue.length ≤ b.line.workCapacity := by
    show b.workQueue.toList.length ≤ b.workQueue.capacity.toNat
    rw [FixedRingQueue.length_toList]
    exact h.queue.size_le
  obtain ⟨hiff, hqueue⟩ := b.line.admitWork_spec w session ctx hsize
  have hplan' : w.admissible b.line.forwardPlanner session = (b.forwardPlanner.beginIn work session).1 := hplan
  rw [hplan', ForwardPlanner.beginIn_ready_iff h.routes, workCurrent_iff_open, ForwardPlanner.preflighted_iff, hid,
    ← hresult] at hiff
  have hadmitted : (b.admitWork work session ctx).1.status = .admitted ↔ Welcome b work session := by
    rw [hiff]
    constructor
    · rintro ⟨⟨⟨hopen, hname⟩, hshape, hrouted⟩, hfresh, hroom, hfile⟩
      exact ⟨hopen, hname, hshape, hrouted, hfresh, hroom, hfile⟩
    · intro hw
      exact ⟨⟨⟨hw.sessionOpen, hw.identity⟩, hw.shape, hw.routed⟩, hw.fresh, hw.queueRoom, hw.ledgerRoom⟩
  refine ⟨hadmitted, fun hw => ?_, fun hw => admitWork_refused (mt hadmitted.1 hw)⟩
  have hlast := hqueue (hresult ▸ hadmitted.2 hw)
  rw [← hline, hslot] at hlast
  exact hlast

/-- **A facade takes in exactly the works that are welcome**, after every run and for both tables. -/
theorem takes_in_welcome_works (hb : b.Deployed) (calls : List Call) (session : SessionStateView) (ctx : Ptr) :
    (∀ work : CoilIngressWorkView, AdmitsExactly (b.run calls) work session ctx) ∧
    (∀ work : HoldingIngressWorkView, AdmitsExactly (b.run calls) work session ctx) := by
  have h := run_coherent hb.coherent calls
  exact ⟨fun work => h.admitsExactly session ctx work (show (Ingress.coils work).identity = _ from rfl) rfl rfl,
    fun work => h.admitsExactly session ctx work (show (Ingress.holding work).identity = _ from rfl) rfl rfl⟩

/-- While both works of the test wait there is no room for a third; once the first is through it is
welcome, and waits behind the second. -/
theorem takes_in_welcome_works_test :
    let work : HoldingIngressWorkView := makeIngressWork ⟨3, 9⟩ 103 1 .tracked ⟨3, 0⟩
    let f := testBridge.run (testCalls 2)
    ¬ Welcome (testBridge.run (testCalls 0)) work testSession ∧ Welcome f work testSession ∧
    (f.admitWork work testSession .null).2.queue = f.queue ++ [freshSlot work .null] ∧
    (f.admitWork work testSession .null).2.queue.map (·.workIdentity) = [⟨2, 9⟩, ⟨3, 9⟩] := by
  intro work f
  obtain ⟨_, hbefore⟩ := takes_in_welcome_works testBridge_deployed (testCalls 0) testSession .null
  obtain ⟨_, hafter⟩ := takes_in_welcome_works testBridge_deployed (testCalls 2) testSession .null
  have hwelcome : Welcome f work testSession := (hafter work).admitted.1 (by decide +kernel)
  exact ⟨mt (hbefore work).admitted.2 (by decide +kernel), hwelcome, (hafter work).queued hwelcome, by decide +kernel⟩

end StoreForwardBridge

end ModbusRTUBridge
