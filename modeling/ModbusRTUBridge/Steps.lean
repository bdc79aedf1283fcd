import ModbusRTUBridge.System
/-!
# What a call can do

`Step` lists the ten things a call can do to a coherent facade, each with everything it
changes; `exec_step` shows that there is nothing else, and `Step.coherent` that coherence is
kept. Later invariants are proved by cases on `Step` and never unfold the facade.
-/

namespace ModbusRTUBridge

namespace Ingress

def identity : Ingress → WorkIdentity
  | .coils work => work.identity
  | .holding work => work.identity

/-- The status of a `begin` on the work. -/
def beginStatus (p : ForwardPlanner) : Ingress → ForwardPlanStatus
  | .coils work => (p.begin work).1
  | .holding work => (p.begin work).1

/-- The slot a successful admission queues. -/
def slot (ctx : Ptr) : Ingress → StoreForwardWorkSlot
  | .coils work => StoreForwardBridge.freshSlot work ctx
  | .holding work => StoreForwardBridge.freshSlot work ctx

@[simp] theorem slot_workIdentity (ctx : Ptr) (work : Ingress) : (work.slot ctx).workIdentity = work.identity := by
  cases work <;> rfl

end Ingress

/-- A slot nothing has been sent of. -/
structure StoreForwardWorkSlot.Fresh (s : StoreForwardWorkSlot) : Prop where
  fragmentIndex : s.fragmentIndex = 0
  sourceOffset : s.sourceOffset = 0
  remaining : s.remaining = s.quantity
  remaining_ne : s.remaining ≠ 0

namespace StoreForwardBridge

/-- A result that decides and retires nothing. -/
def Quiet (r : Res) : Prop := ∀ x, r = .completion x → x.decision = {} ∧ x.workRetired = false

inductive Step (b : StoreForwardBridge) : Call → Res → StoreForwardBridge → Prop
  /-- A refused call, or a preview. -/
  | refused {c r} (hr : r.effective = false) (hq : Quiet r) : Step b c r b
  | admitted {mem w session ctx} {r : StoreForwardAdmission} {q l} (hr : r.status = .admitted)
      (hcur : workCurrent w.identity session = true) (hbegin : w.beginStatus b.forwardPlanner = .ready)
      (hok : (w.slot ctx).Ok b.forwardPlanner) (hfresh : (w.slot ctx).Fresh)
      (hnew : b.records w.identity = none) (hq : q.WF) (hqueue : q.toList = b.queue ++ [w.slot ctx]) (hl : l.WF)
      (hrecords : l.lookup = b.records.file w.identity (some (w.slot ctx).idleRecord)) :
      Step b ⟨mem, .admitWork w session ctx⟩ (.admission r)
        { b with workQueue := q, completionLedger := l, revision := nextNonZeroSequence32 b.revision }
  | skipped {mem a session polls n i} (hf : b.inFlight = false)
      (hp : PollProposal b session a.selectedAt polls n i a) (hreq : a.requiresCompletion = false) :
      Step b ⟨mem, .admitAction a session polls n⟩ (.actionAdmission .consumed) (b.afterSkip a)
  | pollAdmitted {mem a session polls n i} (hf : b.inFlight = false)
      (hp : PollProposal b session a.selectedAt polls n i a) (hreq : a.requiresCompletion = true) :
      Step b ⟨mem, .admitAction a session polls n⟩ (.actionAdmission .admitted) (b.afterPoll a)
  | writeAdmitted {mem a session polls n s rest} (hf : b.inFlight = false)
      (hw : WriteProposal mem b session a.selectedAt polls n a.downstream.consistencyContext s a)
      (hq : b.queue = s :: rest) :
      Step b ⟨mem, .admitAction a session polls n⟩ (.actionAdmission .admitted) (b.afterWrite s a)
  | pollCompleted {mem a outcome session} (hf : b.inFlight = true) (ha : b.inFlightAction = a) (hk : a.kind = .poll) :
      Step b ⟨mem, .complete a outcome session⟩
        (.completion { status := .completed, kind := .poll, outcome, workContext := a.workContext }) b.landed
  | settled {mem a outcome session s rest l} (ho : b.outstanding = some a)
      (hknown : isKnownDownstreamOutcome outcome = true) (hcur : workCurrent a.write.identity.work session = true)
      (hq : b.queue = s :: rest) (hl : l.WF)
      (hrecords : l.lookup =
        b.records.file s.workIdentity (if retires a.write outcome then none else some s.idleRecord)) :
      Step b ⟨mem, .complete a outcome session⟩ (.completion (settledResult a outcome)) (b.afterSettle a outcome l)
  | stale {mem a outcome session s rest l} (ho : b.outstanding = some a)
      (hcur : workCurrent a.write.identity.work session = false) (hq : b.queue = s :: rest) (hl : l.WF)
      (hrecords : l.lookup = b.records.file s.workIdentity none) :
      Step b ⟨mem, .complete a outcome session⟩ (.completion (staleResult a outcome)) (b.afterStale l)
  | dropped {c : Call} {s rest} (hop : c.op = .abandonFront ∨
        ∃ session, c.op = .discardOneStaleWork session ∧ workCurrent s.workIdentity session = false)
      (hf : b.inFlight = false) (hq : b.queue = s :: rest) :
      Step b c (.retirement .retired (retirementOf s)) (b.afterRetire s)
  | reset {c : Call} {q l} (hop : c.op = .reset) (hf : b.inFlight = false) (hq : q.WF) (hqueue : q.toList = [])
      (hl : l.WF) (hrecords : l.lookup = fun _ => none) :
      Step b c (.reset true)
        { b with workQueue := q, completionLedger := l, pollState := {}, revision := nextNonZeroSequence32 b.revision }

variable {b b' : StoreForwardBridge} {c : Call} {r : Res}

theorem fresh_freshSlot {Value : Type} [AppliedPayload Value] {work : IngressWorkView Value} (h : work.count ≠ 0)
    (ctx : Ptr) : (freshSlot work ctx).Fresh := ⟨rfl, rfl, rfl, h⟩

theorem quiet_of_ne {r : Res} (h : ∀ x, r ≠ .completion x) : Quiet r := fun x e => absurd e (h x)

/-- **A call on a coherent facade is one of the steps.** -/
theorem exec_step (h : b.Coherent) (c : Call) : Step b c (b.exec c).1 (b.exec c).2 := by
  obtain ⟨mem, op⟩ := c
  cases op with
  | admitWork work session ctx =>
    cases work with
    | coils work =>
      rcases admitWork_cases h work session ctx with
        ⟨hst, heq⟩ | ⟨hcur, hbegin, hplan, hnone, r, q, l, heq, hst, hq, hqueue, hl, hlook⟩
      · simp only [exec, admitIngress, heq]
        exact .refused (by simpa [Res.effective] using hst) (quiet_of_ne (by simp))
      · simp only [exec, admitIngress, heq]
        exact Step.admitted (w := .coils work) hst hcur hbegin
          (StoreForwardWorkSlot.ok_ofCoils (workCurrent_valid hcur) hplan) (fresh_freshSlot hplan.count_ne ctx) hnone hq
          hqueue hl hlook
    | holding work =>
      rcases admitWork_cases h work session ctx with
        ⟨hst, heq⟩ | ⟨hcur, hbegin, hplan, hnone, r, q, l, heq, hst, hq, hqueue, hl, hlook⟩
      · simp only [exec, admitIngress, heq]
        exact .refused (by simpa [Res.effective] using hst) (quiet_of_ne (by simp))
      · simp only [exec, admitIngress, heq]
        exact Step.admitted (w := .holding work) hst hcur hbegin
          (StoreForwardWorkSlot.ok_ofHolding (workCurrent_valid hcur) hplan) (fresh_freshSlot hplan.count_ne ctx) hnone hq
          hqueue hl hlook
  | nextAction session now polls n ctx => exact .refused rfl (quiet_of_ne (by simp [exec]))
  | admitAction a session polls n =>
    rcases admitAction_cases h mem a session polls n with
      ⟨_, h1, h2, heq⟩ | ⟨hf, _, ⟨i, hp, hreq, heq⟩ | ⟨i, hp, hreq, heq⟩ | ⟨front, hw, heq⟩⟩
    · simp only [exec, heq]
      exact .refused (by simp [Res.effective, h1, h2]) (quiet_of_ne (by simp))
    · simp only [exec, heq]
      exact .skipped hf hp hreq
    · simp only [exec, heq]
      exact .pollAdmitted hf hp hreq
    · simp only [exec, heq]
      obtain ⟨rest, hq⟩ : ∃ rest, b.queue = front :: rest := by
        have hhead := hw.head
        cases hq : b.queue with
        | nil => rw [hq] at hhead; cases hhead
        | cons s rest => rw [hq] at hhead; cases hhead; exact ⟨rest, rfl⟩
      exact .writeAdmitted hf hw hq
  | complete a outcome session =>
    rcases complete_cases h a outcome session with hno | ⟨hf, ha, hknown, ⟨hk, heq⟩ |
      ⟨s, rest, l, ho, hq, hcur, heq, hl, hlook⟩ | ⟨s, rest, l, ho, hq, hcur, heq, hl, hlook⟩⟩
    · obtain ⟨hst, hdec, hret, heq⟩ := complete_refused session hno
      simp only [exec, heq]
      refine .refused ?_ fun x e => ?_
      · rcases hst with e | e | e <;> simp [Res.effective, e]
      · cases e
        exact ⟨hdec, hret⟩
    · simp only [exec, heq]
      exact .pollCompleted hf ha hk
    · simp only [exec, heq]
      exact .settled ho hknown hcur hq hl hlook
    · simp only [exec, heq]
      exact .stale ho hcur hq hl hlook
  | discardOneStaleWork session =>
    rcases discardOneStaleWork_cases h session with ⟨hst, heq⟩ | ⟨hf, s, rest, hq, hcur, heq⟩
    · simp only [exec, heq]
      exact .refused (by simpa [Res.effective] using hst) (quiet_of_ne (by simp))
    · simp only [exec, heq]
      exact .dropped (Or.inr ⟨session, rfl, hcur⟩) hf hq
  | abandonFront =>
    rcases abandonFront_cases h with ⟨hst, heq⟩ | ⟨hf, s, rest, hq, heq⟩
    · simp only [exec, heq]
      exact .refused (by simpa [Res.effective] using hst) (quiet_of_ne (by simp))
    · simp only [exec, heq]
      exact .dropped (Or.inl rfl) hf hq
  | reset =>
    rcases reset_cases h with ⟨heq, _⟩ | ⟨hf, q, l, heq, hq, hqueue, hl, hlook⟩
    · simp only [exec, heq]
      exact .refused rfl (quiet_of_ne (by simp))
    · simp only [exec, heq]
      exact .reset rfl hf hq hqueue hl hlook

/-! ## Coherence is kept -/

/-- Coherence with nothing in flight is about the queue and the ledger alone. -/
theorem coherent_idle (hp : b.forwardPlanner.RoutesOk) (hq : b.workQueue.WF) (hl : b.completionLedger.WF)
    (hfiled : Filed b.forwardPlanner b.queue b.records none) (hf : b.inFlight = false) : b.Coherent := by
  have ho := outstanding_idle hf
  exact ⟨hp, hq, hl, ho ▸ hfiled, fun e => absurd (hf.symm.trans e) (by decide), fun a e => by rw [ho] at e; cases e⟩

theorem Coherent.filed_cons (h : b.Coherent) {s : StoreForwardWorkSlot} {rest : List StoreForwardWorkSlot}
    (hq : b.queue = s :: rest) : Filed b.forwardPlanner (s :: rest) b.records b.outstanding := hq ▸ h.filed

/-- The queue after its front was popped. -/
theorem Coherent.pop_queue (h : b.Coherent) {s : StoreForwardWorkSlot} {rest : List StoreForwardWorkSlot}
    (hq : b.queue = s :: rest) : b.workQueue.popFront.2.WF ∧ b.workQueue.popFront.2.toList = rest :=
  (FixedRingQueue.popFront_spec h.queue hq).2

theorem outstanding_afterWrite (s : StoreForwardWorkSlot) {a : StoreForwardAction} (hk : a.kind = .forwardWrite) :
    (b.afterWrite s a).outstanding = some a := outstanding_eq_some.2 ⟨rfl, rfl, hk⟩

theorem outstanding_afterPoll {a : StoreForwardAction} (hk : a.kind = .poll) : (b.afterPoll a).outstanding = none := by
  cases ho : (b.afterPoll a).outstanding with
  | none => rfl
  | some a' =>
    obtain ⟨_, rfl, hk'⟩ := outstanding_eq_some.1 ho
    exact absurd (hk'.symm.trans hk) (by decide)

/-- **Every step keeps coherence.** -/
theorem Step.coherent (h : b.Coherent) (hs : Step b c r b') : b'.Coherent := by
  cases hs with
  | refused => exact h
  | @admitted mem work session ctx r q l hr hcur hbegin hok hfresh hnew hq hqueue hl hrecords =>
    have hfiled := h.filed.push hok hfresh.fragmentIndex hfresh.remaining_ne (by rw [Ingress.slot_workIdentity]; exact hnew)
    rw [Ingress.slot_workIdentity, ← hqueue, ← hrecords] at hfiled
    exact ⟨h.routes, hq, hl, hfiled, h.kinds, h.owner⟩
  | skipped hf hp hreq =>
    have hfiled := h.filed
    rw [outstanding_idle hf] at hfiled
    exact coherent_idle h.routes h.queue h.ledger hfiled hf
  | @pollAdmitted mem a session polls n i hf hp hreq =>
    have hk : a.kind = .poll := by rw [hp.shape]
    have hfiled := h.filed
    have ho := outstanding_afterPoll (b := b) hk
    rw [outstanding_idle hf, ← ho] at hfiled
    exact ⟨h.routes, h.queue, h.ledger, hfiled, fun _ => Or.inr hk, fun a' e => by rw [ho] at e; cases e⟩
  | @writeAdmitted mem a session polls n s rest hf hw hq =>
    have hk : a.kind = .forwardWrite := by rw [hw.shape]
    have hne : a.sequence ≠ 0 := hw.sequence ▸ nextNonZeroSequence32_ne_zero _
    have hfiled := h.filed_cons hq
    rw [outstanding_idle hf] at hfiled
    have hfiled' := hfiled.issue hw.takes hne (by rw [hw.shape]) hk ⟨_, congrArg StoreForwardAction.downstream hw.shape⟩
    obtain ⟨_, hl, hlook⟩ := recordIssued_write h hf hw
    obtain ⟨hqwf, hqueue⟩ := FixedRingQueue.writeFront_spec h.queue (y := s.advance a.write.quantity) hq
    rw [← hqueue, ← hlook, ← outstanding_afterWrite (b := b) s hk] at hfiled'
    refine ⟨h.routes, hqwf, hl, hfiled', fun _ => Or.inl hk, ?_⟩
    intro a' e
    rw [outstanding_afterWrite s hk] at e
    cases e
    rfl
  | @pollCompleted mem a outcome session hf ha hk =>
    have hfiled := h.filed
    rw [outstanding_of_poll ha hk] at hfiled
    exact coherent_idle h.routes h.queue h.ledger hfiled rfl
  | @settled mem a outcome session s rest l ho hknown hcur hq hl hrecords =>
    have hfiled := h.filed_cons hq
    rw [ho] at hfiled
    cases hret : retires a.write outcome with
    | true =>
      have hfiled' := hfiled.pop
      obtain ⟨hqwf, hqueue⟩ := h.pop_queue hq
      rw [hret, if_pos rfl] at hrecords
      rw [← hqueue, ← hrecords] at hfiled'
      have hw : (b.afterSettle a outcome l).workQueue = b.workQueue.popFront.2 := by simp [afterSettle, hret]
      exact coherent_idle h.routes (hw ▸ hqwf) hl (by unfold queue; rw [hw]; exact hfiled') rfl
    | false =>
      rw [hret, if_neg (by simp)] at hrecords
      have hw : (b.afterSettle a outcome l).workQueue = b.workQueue := by simp [afterSettle, hret]
      simp only [retires, Bool.or_eq_false_iff] at hret
      have hr : s.remaining ≠ 0 := fun e => by
        have := hfiled.front_cons.1.final_iff.2 e
        rw [hret.1] at this
        cases this
      have hfiled' := hfiled.progress hr
      rw [← hrecords, ← hq] at hfiled'
      exact coherent_idle h.routes (hw ▸ h.queue) hl (by unfold queue; rw [hw]; exact hfiled') rfl
  | @stale mem a outcome session s rest l ho hcur hq hl hrecords =>
    have hfiled := (h.filed_cons hq).pop
    obtain ⟨hqwf, hqueue⟩ := h.pop_queue hq
    rw [← hqueue, ← hrecords] at hfiled
    exact coherent_idle h.routes hqwf hl hfiled rfl
  | @dropped c s rest hop hf hq =>
    have hfiled := (h.filed_cons hq).pop
    obtain ⟨hqwf, hqueue⟩ := h.pop_queue hq
    obtain ⟨_, hl, hlook⟩ := CompletionLedger.abandon_spec h.ledger (h.record_of_idle hf hq)
    rw [← hqueue, ← show _ = b.records.file s.workIdentity none from funext hlook] at hfiled
    exact coherent_idle h.routes hqwf hl hfiled hf
  | reset hop hf hq hqueue hl hrecords =>
    have hfiled := Filed.nil (p := b.forwardPlanner)
    rw [← hqueue, ← hrecords] at hfiled
    exact coherent_idle h.routes hq hl hfiled hf

theorem exec_coherent (h : b.Coherent) (c : Call) : (b.exec c).2.Coherent := (exec_step h c).coherent h

/-- No step touches the configuration. -/
theorem Step.planners (hs : Step b c r b') :
    b'.forwardPlanner = b.forwardPlanner ∧ b'.pollPlanner = b.pollPlanner := by
  cases hs <;> exact ⟨rfl, rfl⟩

/-! ## Deployment -/

/-- A facade just constructed over valid storage and a cleared ledger of its own, with a
validated route table the searches are correct on. -/
structure Deployed (b : StoreForwardBridge) : Prop where
  constructed : ∃ planner storage capacity slots ledgerCapacity pollPlanner,
    b = create planner storage capacity (CompletionLedger.create slots ledgerCapacity) pollPlanner
  validStorage : b.validStorage = true
  validated : b.forwardPlanner.routes.validate = .valid
  small : b.forwardPlanner.routes.routeCount.toNat ≤ 32767

theorem Deployed.coherent (h : b.Deployed) : b.Coherent := by
  obtain ⟨planner, storage, capacity, slots, ledgerCapacity, pollPlanner, rfl⟩ := h.constructed
  have hv := h.validStorage
  simp only [StoreForwardBridge.validStorage, create, Bool.and_eq_true] at hv
  have hstore : ∀ {α : Type} {st : Storage α} {cap : UInt16}, (cap == 0 || !st.isNone) = true →
      cap = 0 ∨ st.isNone = false := by
    intro α st cap he
    simpa using he
  have hq := FixedRingQueue.create_wf (hstore hv.1)
  have hslots : ledgerCapacity = 0 ∨ slots.isNone = false := by
    have := hstore hv.2
    cases slots <;> simp_all [CompletionLedger.create, CompletionLedger.clear]
  obtain ⟨hl, hlook⟩ := CompletionLedger.create_spec hslots
  have hfiled := Filed.nil (p := planner)
  rw [← show (CompletionLedger.create slots ledgerCapacity).lookup = fun _ => none from funext hlook] at hfiled
  exact coherent_idle ⟨h.validated, h.small⟩ hq hl hfiled rfl

/-- **Every reachable facade is coherent.** -/
theorem run_coherent (h : b.Coherent) (calls : List Call) : (b.run calls).Coherent :=
  Machine.inv_final exec (P := Coherent) (fun _ c hb => exec_coherent hb c) h calls

theorem run_planners (h : b.Coherent) (calls : List Call) :
    (b.run calls).forwardPlanner = b.forwardPlanner ∧ (b.run calls).pollPlanner = b.pollPlanner :=
  (Machine.inv_final exec
    (P := fun s => s.Coherent ∧ s.forwardPlanner = b.forwardPlanner ∧ s.pollPlanner = b.pollPlanner)
    (fun _ c ⟨hs, hf, hp⟩ =>
      have hstep := exec_step hs c
      ⟨hstep.coherent hs, hstep.planners.1.trans hf, hstep.planners.2.trans hp⟩)
    ⟨h, rfl, rfl⟩ calls).2

/-! ## The facade of the two-phase test (`facade_main.cpp:537-577`) -/

def makeHoldingRoute (endpoint : UInt8) (upstream downstream count : UInt16) : EndpointRoute where
  endpointId := endpoint
  upstream table := if table = RegisterTable.holdingRegisters.index then ⟨upstream, count⟩ else ⟨0, 0⟩
  downstream table := if table = RegisterTable.holdingRegisters.index then ⟨downstream, count⟩ else ⟨0, 0⟩

/-- Two endpoints, room for two works, one forward between two polls. -/
def testBridge : StoreForwardBridge :=
  create
    { routes := ⟨some fun i => if i = 0 then makeHoldingRoute 10 100 0 2 else makeHoldingRoute 11 102 20 2, 2⟩
      options := ⟨8, 2, .preflightAndSplit, .preflightAndSplit⟩ }
    (some fun _ => {}) 2 (CompletionLedger.create (some fun _ => {}) 2) { options := ⟨1⟩ }

theorem testBridge_deployed : testBridge.Deployed :=
  ⟨⟨_, _, _, _, _, _, rfl⟩, by decide, by decide, by decide⟩

def testMemory : Memory := ⟨fun _ => false, fun p => UInt16.ofNat (p.offset + 1)⟩
def testSession : SessionStateView := ⟨true, 9, 9, .ready⟩

def firstWork : HoldingIngressWorkView := makeIngressWork ⟨1, 9⟩ 100 4 .latestState ⟨1, 0⟩
def secondWork : HoldingIngressWorkView := makeIngressWork ⟨2, 9⟩ 100 1 .tracked ⟨2, 0⟩

/-- The next fragment of `b`, admitted and completed as applied. -/
def forwardOnce (b : StoreForwardBridge) : List Call :=
  let a := (b.nextAction testMemory testSession 0 none 0 .null).2
  [⟨testMemory, .admitAction a testSession none 0⟩, ⟨testMemory, .complete a .applied testSession⟩]

/-- Both works are admitted, then `k` fragments forwarded; three are all there are. -/
def testCalls : Nat → List Call
  | 0 =>
    [⟨testMemory, .admitWork (.holding firstWork) testSession ⟨3, 0⟩⟩,
     ⟨testMemory, .admitWork (.holding secondWork) testSession .null⟩]
  | k + 1 => testCalls k ++ forwardOnce (testBridge.run (testCalls k))

example : ((testBridge.history (testCalls 3)).all fun e => e.output.effective) = true := by decide +kernel

end StoreForwardBridge

end ModbusRTUBridge
