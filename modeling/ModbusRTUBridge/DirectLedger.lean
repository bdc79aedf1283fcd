import ModbusRTUBridge.LedgerModel
import ModbusRTUBridge.Lib.Parties
import ModbusRTUBridge.Tracking
/-!
# Works planned directly over one ledger

The guide also has callers that do without the facade ("Forward planning", "Bounded storage and
completion ledger"): such a caller begins a cursor, reserves the work, then records each request
before it is executed and resolves it with the terminal result; after a failure it stops planning,
and it releases the work once that has drained. Several works share a ledger, each with a request
of its own outstanding.

| phase | the caller's next calls |
| --- | --- |
| `fresh`      | `begin`, `reserve` |
| `planning`   | `next`, `recordIssued` |
| `executing`  | `resolve`, with what the execution came to |
| `failed`     | `closePlanningAfterFailure` |
| `drained`    | `summary`, `release` |
-/

namespace ModbusRTUBridge

/-- `begin(work, session, cursor)` for either element type. -/
def Ingress.beginIn (p : ForwardPlanner) (session : SessionStateView) : Ingress → ForwardPlanStatus × StoreForwardWorkSlot
  | .coils work => ((p.beginIn work session).1, .ofWork work (p.beginIn work session).2 .null)
  | .holding work => ((p.beginIn work session).1, .ofWork work (p.beginIn work session).2 .null)

inductive DirectPhase where
  | fresh
  /-- `begin` refused the work. -/
  | refused
  | planning
  | executing (request : PlannedWriteRequest)
  | failed
  | drained
  | released (summary : WorkCompletionSummary)
  /-- The ledger or the planner refused a call. -/
  | stuck
deriving DecidableEq

/-- The request under execution. -/
def DirectPhase.request : DirectPhase → Option PlannedWriteRequest
  | .executing request => some request
  | _ => none

/-- A resolved request. -/
structure DirectAnswer where
  request : PlannedWriteRequest
  outcome : DownstreamOutcome
  resolution : LedgerResolution
deriving DecidableEq

/-- A caller and its work. The cursor is kept as a slot, which holds one of either element type. -/
structure DirectWork where
  work : Ingress
  cursor : StoreForwardWorkSlot := {}
  sequence : UInt32 := 0
  phase : DirectPhase := .fresh
  answers : List DirectAnswer := []

/-- What a turn of a caller is given. -/
structure DirectTurn where
  memory : Memory
  session : SessionStateView
  outcome : DownstreamOutcome

namespace DirectWork

/-- A caller's next calls. -/
def turn (p : ForwardPlanner) (t : DirectTurn) (l : CompletionLedger) (d : DirectWork) : CompletionLedger × DirectWork :=
  match d.phase with
  | .fresh =>
    match d.work.beginIn p t.session with
    | (.ready, cursor) =>
      let r := l.reserve d.work.identity d.work.delivery
      (r.2, { d with cursor, phase := if r.1 = .reserved then .planning else .stuck })
    | _ => (l, { d with phase := .refused })
  | .planning =>
    let sequence := nextNonZeroSequence32 d.sequence
    match d.cursor.next t.memory p sequence with
    | (.planned, cursor, request) =>
      let r := l.recordIssued request
      (r.2, { d with cursor, sequence, phase := if r.1 = .recorded then .executing request else .stuck })
    | _ => (l, { d with phase := .stuck })
  | .executing request =>
    let r := l.resolve request ⟨request.identity, t.outcome⟩ t.session
    (r.2, { d with
      answers := d.answers ++ [⟨request, t.outcome, r.1⟩]
      phase :=
        if r.1.status ≠ .resolved then .stuck
        else if t.outcome ≠ .applied then .failed
        else if r.1.summary.drained then .drained
        else .planning })
  | .failed => ((l.closePlanningAfterFailure d.work.identity).2, { d with phase := .drained })
  | .drained =>
    match l.summary d.work.identity with
    | (true, summary) =>
      let r := l.release d.work.identity
      if summary.drained then (r.2, { d with phase := if r.1 = .released then .released summary else .stuck })
      else (l, { d with phase := .stuck })
    | _ => (l, { d with phase := .stuck })
  | _ => (l, d)

/-- Nothing is left to do. -/
def Over (d : DirectWork) : Prop :=
  match d.phase with
  | .refused | .released _ => True
  | _ => False

instance (d : DirectWork) : Decidable d.Over := by unfold Over; cases d.phase <;> infer_instance

/-- The requests recorded so far. -/
def requests (d : DirectWork) : List PlannedWriteRequest :=
  d.answers.map (·.request) ++ d.phase.request.toList

/-- The notices owed to the public so far. -/
def notices (d : DirectWork) : List CompletionNotice :=
  (d.answers.map (·.resolution.decision.notice)).filter (· ≠ .none)

/-- How many turns a caller still needs. -/
def potential (d : DirectWork) : Nat :=
  match d.phase with
  | .fresh => 2 * d.work.count.toNat + 3
  | .planning => 2 * d.cursor.remaining.toNat + 2
  | .executing _ => 2 * d.cursor.remaining.toNat + 3
  | .failed => 2
  | .drained => 1
  | _ => 0

end DirectWork

/-! ## A caller and its record -/

/-- A request applied with more to come. -/
structure DirectAnswer.Progress (x : DirectAnswer) : Prop where
  outcome : x.outcome = .applied
  decision : x.resolution.decision = decisionFor x.request .applied
  more : x.request.finalFragment = false

/-- The answers end with the one that ends the work. -/
structure DirectWork.Ends (d : DirectWork) (last : DirectAnswer) (earlier : List DirectAnswer) : Prop where
  answers : d.answers = earlier ++ [last]
  progress : ∀ x ∈ earlier, x.Progress
  decision : last.resolution.decision = decisionFor last.request last.outcome
  delivery : last.request.delivery = d.work.delivery
  known : isKnownDownstreamOutcome last.outcome = true
  retires : retires last.request last.outcome = true
  reaches : last.request.finalFragment = true → d.cursor.remaining = 0

/-- The cursor stands after the requests recorded of the work. -/
structure DirectWork.Under (p : ForwardPlanner) (d : DirectWork) : Prop where
  ok : (d.work.slot .null).Ok p
  fresh : (d.work.slot .null).Fresh
  sent : Sent p (d.work.slot .null) d.requests d.cursor

/-- What a caller and its entry in the ledger have to do with each other. -/
def DirectWork.Stands (p : ForwardPlanner) (d : DirectWork) (record : Option CompletionLedgerSlot) : Prop :=
  match d.phase with
  | .fresh | .refused => record = none ∧ d.answers = []
  | .planning => d.Under p ∧ record = some d.cursor.idleRecord ∧ d.cursor.remaining ≠ 0 ∧ ∀ x ∈ d.answers, x.Progress
  | .executing request => d.Under p ∧ record = some (busyRecord request) ∧ (∀ x ∈ d.answers, x.Progress) ∧
      ∃ a : StoreForwardAction, a.write = request ∧ d.cursor.Issued p a
  | .failed => d.Under p ∧ ∃ last earlier, d.Ends last earlier ∧ last.outcome ≠ .applied ∧
      record = some (settledRecord last.request last.outcome)
  | .drained => d.Under p ∧ ∃ last earlier r, d.Ends last earlier ∧ record = some r ∧ r.planningClosed = true ∧
      r.outstandingRequests = 0 ∧ r.observedOutcome = workOutcomeFor last.outcome
  | .released summary => d.Under p ∧ record = none ∧ ∃ last earlier, d.Ends last earlier ∧
      summary.outcome = workOutcomeFor last.outcome ∧ summary.settled = true ∧ summary.drained = true
  | .stuck => False

/-! ## One turn -/

/-- Every call leaves a ledger of the same capacity. -/
theorem CompletionLedger.step_kept {l : CompletionLedger} (h : l.WF) (call : LedgerCall) :
    (l.step call).2.WF ∧ (l.step call).2.capacity = l.capacity := by
  have hm : Refines l ⟨l.capacity.toNat, l.lookup⟩ := ⟨h, rfl, fun _ => rfl⟩
  have hnext := (hm.step call).2
  exact ⟨hnext.wf, UInt16.toNat_inj.1 (hnext.capacity.symm.trans (WorkMap.step_capacity _ call))⟩

section
variable {p : ForwardPlanner} {t : DirectTurn} {l : CompletionLedger} {d : DirectWork}

/-- What a turn does. -/
structure DirectWork.Moves (p : ForwardPlanner) (l : CompletionLedger) (d : DirectWork) (r : CompletionLedger × DirectWork) :
    Prop where
  kept : r.1.WF ∧ r.1.capacity = l.capacity
  work : r.2.work = d.work
  own : r.2.Stands p (r.1.lookup d.work.identity)
  others : ∀ w, w ≠ d.work.identity → r.1.lookup w = l.lookup w
  lower : r.2.potential ≤ d.potential - 1

/-- What a turn is allowed to be given: a known outcome, and a session that goes on. -/
structure DirectTurn.Fits (t : DirectTurn) (work : WorkIdentity) : Prop where
  known : isKnownDownstreamOutcome t.outcome = true
  current : workCurrent work t.session = true

instance (t : DirectTurn) (work : WorkIdentity) : Decidable (t.Fits work) :=
  decidable_of_iff (isKnownDownstreamOutcome t.outcome = true ∧ workCurrent work t.session = true)
    ⟨fun h => ⟨h.1, h.2⟩, fun h => ⟨h.1, h.2⟩⟩

theorem Ingress.beginIn_ready {work : Ingress} (session : SessionStateView) (hp : p.RoutesOk)
    (h : (work.beginIn p session).1 = .ready) :
    (work.beginIn p session).2 = work.slot .null ∧ (work.slot .null).Ok p ∧ (work.slot .null).Fresh := by
  cases work with
  | coils work =>
    obtain ⟨hcur, hbegin, hcursor⟩ := ForwardPlanner.beginIn_ready h
    have hplan := ForwardPlanner.begin_ready hp hbegin
    refine ⟨by simp only [beginIn, hcursor, slot], ?_, StoreForwardBridge.fresh_freshSlot hplan.count_ne _⟩
    exact StoreForwardWorkSlot.ok_ofCoils (workCurrent_valid hcur) hplan
  | holding work =>
    obtain ⟨hcur, hbegin, hcursor⟩ := ForwardPlanner.beginIn_ready h
    have hplan := ForwardPlanner.begin_ready hp hbegin
    refine ⟨by simp only [beginIn, hcursor, slot], ?_, StoreForwardBridge.fresh_freshSlot hplan.count_ne _⟩
    exact StoreForwardWorkSlot.ok_ofHolding (workCurrent_valid hcur) hplan

/-- The first turn: with room in the ledger the work is reserved, unless `begin` refuses it. -/
theorem DirectWork.Stands.begin (hp : p.RoutesOk) (hl : l.WF) (h : d.Stands p (l.lookup d.work.identity))
    (hphase : d.phase = .fresh) (hroom : l.size.toNat < l.capacity.toNat) : d.Moves p l (d.turn p t l) := by
  unfold Stands at h
  rw [hphase] at h
  obtain ⟨hnone, hanswers⟩ := h
  have hpotential : d.potential = 2 * d.work.count.toNat + 3 := by simp only [potential, hphase]
  unfold turn
  simp only [hphase]
  split
  · rename_i cursor hbegin
    obtain ⟨hcursor, hok, hfresh⟩ := Ingress.beginIn_ready t.session hp (congrArg Prod.fst hbegin)
    rw [hbegin] at hcursor
    obtain rfl : cursor = d.work.slot .null := hcursor
    have hvalid : d.work.identity.valid = true := by simpa using hok.identity
    have haccepted : isAccepted d.work.delivery = true := by simpa using hok.accepted
    have hstatus := CompletionLedger.reserve_status hl d.work.identity d.work.delivery
    simp only [hvalid, haccepted, Bool.not_true, Bool.false_eq_true, or_self, if_false, hnone, Option.isSome_none,
      hroom, if_true] at hstatus
    obtain ⟨_, _, _, _, _, hlookup⟩ := (CompletionLedger.reserve_cases hl d.work.identity d.work.delivery).resolve_left
      fun hl => hl.1 hstatus
    simp only [hstatus, if_true]
    refine ⟨CompletionLedger.step_kept hl (.reserve _ _), rfl, ?_, fun w hw => (hlookup w).trans (if_neg hw), ?_⟩
    · refine ⟨⟨hok, hfresh, ?_⟩, ?_, ?_, ?_⟩
      · simp only [requests, hanswers]
        exact .none
      · rw [hlookup, if_pos rfl]
        simp [StoreForwardWorkSlot.idleRecord, recordAt, CompletionLedger.reservedSlot, hfresh.fragmentIndex]
      · exact hfresh.remaining_ne
      · simp [hanswers]
    · have hcount := congrArg UInt16.toNat hfresh.remaining
      rw [Ingress.slot_quantity] at hcount
      rw [hpotential]
      show 2 * (d.work.slot .null).remaining.toNat + 2 ≤ _
      omega
  · exact ⟨⟨hl, rfl⟩, rfl, ⟨hnone, hanswers⟩, fun _ _ => rfl, Nat.zero_le _⟩

/-- The next request is planned and recorded. -/
theorem DirectWork.Stands.plan (hp : p.RoutesOk) (hl : l.WF) (h : d.Stands p (l.lookup d.work.identity))
    (hphase : d.phase = .planning) : d.Moves p l (d.turn p t l) := by
  unfold Stands at h
  rw [hphase] at h
  obtain ⟨⟨hok, hfresh, hsent⟩, hrecord, hr, hprogress⟩ := h
  have hpotential : d.potential = 2 * d.cursor.remaining.toNat + 2 := by simp only [potential, hphase]
  have hrequests : d.requests = d.answers.map (·.request) := by
    simp only [requests, hphase, DirectPhase.request, Option.toList_none, List.append_nil]
  have hcursor := hsent.ok hok
  have hne := nextNonZeroSequence32_ne_zero d.sequence
  obtain ⟨w, hnext, htakes, _⟩ := StoreForwardWorkSlot.next_spec hp hcursor hr t.memory hne
  have hidentity : d.cursor.workIdentity = d.work.identity := by simpa using hsent.sameWork.identity
  have hwork : w.identity.work = d.work.identity := by rw [htakes.identity, hidentity]
  have hissued : (d.cursor.advance w.quantity).Issued p
      { kind := .forwardWrite, write := w, sequence := nextNonZeroSequence32 d.sequence,
        workContext := d.cursor.userContext, downstream := downstreamRequestFor w .null } :=
    ⟨d.cursor, hcursor, hr, htakes, hne, rfl, rfl, rfl, .null, rfl⟩
  have haccepts : d.cursor.idleRecord.AcceptsIssue w :=
    ⟨rfl, rfl, htakes.delivery, by rw [htakes.identity]; rfl, fun e => absurd e (hcursor.index_ne_last hr)⟩
  have haccepted : isAccepted w.delivery = true := by
    rw [htakes.delivery]
    exact hcursor.accepted
  obtain ⟨hstatus, _, hlookup⟩ := CompletionLedger.recordIssued_spec hl (hwork ▸ hrecord) hissued.identity_valid haccepted
    haccepts
  rw [hwork] at hlookup
  have hbusy : CompletionLedger.issuedSlot d.cursor.idleRecord w = busyRecord w := by
    simp only [busyRecord, StoreForwardWorkSlot.idleRecord, htakes.identity, htakes.delivery]
  unfold turn
  simp only [hphase, hnext, hstatus, if_true]
  refine ⟨CompletionLedger.step_kept hl (.recordIssued w), rfl, ?_, fun w' hw' => (hlookup w').trans (if_neg hw'), ?_⟩
  · refine ⟨⟨hok, hfresh, ?_⟩, ?_, hprogress, _, rfl, hissued⟩
    · rw [hrequests] at hsent
      exact hsent.next hcursor hr htakes hne
    · rw [hlookup, if_pos rfl, hbusy]
  · have hpos := htakes.pos
    have hle := htakes.le_remaining
    have hleft : (d.cursor.advance w.quantity).remaining.toNat = d.cursor.remaining.toNat - w.quantity.toNat :=
      toNat_sub_of_le hle
    rw [hpotential]
    show 2 * (d.cursor.advance w.quantity).remaining.toNat + 3 ≤ _
    omega

/-- The answer to the resolution of `w`. -/
def DirectTurn.answer (t : DirectTurn) (w : PlannedWriteRequest) : DirectAnswer where
  request := w
  outcome := t.outcome
  resolution :=
    { status := .resolved
      decision := decisionFor w t.outcome
      summary := CompletionLedger.summarize (settledRecord w t.outcome) }

/-- The work with one more answer. -/
def DirectWork.told (d : DirectWork) (x : DirectAnswer) (phase : DirectPhase) : DirectWork :=
  { d with answers := d.answers ++ [x], phase }

/-- What resolving the request that is executed does. -/
structure DirectWork.Resolves (p : ForwardPlanner) (l : CompletionLedger) (d : DirectWork) (t : DirectTurn)
    (w : PlannedWriteRequest) : Prop where
  result : (l.resolve w ⟨w.identity, t.outcome⟩ t.session).1 = (t.answer w).resolution
  own : (l.resolve w ⟨w.identity, t.outcome⟩ t.session).2.lookup d.work.identity = some (settledRecord w t.outcome)
  others : ∀ w', w' ≠ d.work.identity → (l.resolve w ⟨w.identity, t.outcome⟩ t.session).2.lookup w' = l.lookup w'
  under : ∀ phase, phase.request = none → (d.told (t.answer w) phase).Under p
  ends : ∀ phase, retires w t.outcome = true → (d.told (t.answer w) phase).Ends (t.answer w) d.answers

theorem DirectWork.Stands.resolves (hl : l.WF) (ht : t.Fits d.work.identity) (h : d.Stands p (l.lookup d.work.identity))
    {w : PlannedWriteRequest} (hphase : d.phase = .executing w) : d.Resolves p l t w := by
  unfold Stands at h
  rw [hphase] at h
  obtain ⟨⟨hok, hfresh, hsent⟩, hrecord, hprogress, a, rfl, hissued⟩ := h
  have hwork : a.write.identity.work = d.work.identity := hissued.work_eq.trans (by simpa using hsent.sameWork.identity)
  have hdelivery : a.write.delivery = d.work.delivery := hissued.delivery_eq.trans (by simpa using hsent.sameWork.delivery)
  have haccepted : isAccepted a.write.delivery = true := hissued.delivery_eq ▸ hissued.ok.accepted
  have hresolve : resolveCompletion a.write ⟨a.write.identity, t.outcome⟩ t.session (busyRecord a.write).aggregate = _ :=
    resolveCompletion_busy hissued.identity_valid haccepted hissued.index_eq.2.2 ht.known (hwork ▸ ht.current)
  have hcurrent : (decisionFor a.write t.outcome).current = true := by
    unfold decisionFor
    split <;> rfl
  obtain ⟨hresult, _, hlookup⟩ := CompletionLedger.resolve_spec hl a.write ⟨a.write.identity, t.outcome⟩ t.session
    (hwork ▸ hrecord) ht.known (busyRecord_outstanding _) rfl (by rw [hresolve]; exact hcurrent)
  rw [hresolve] at hresult hlookup
  rw [hwork] at hlookup
  refine ⟨hresult, (hlookup _).trans (if_pos rfl), fun w hw => (hlookup w).trans (if_neg hw), fun phase hphase' => ?_,
    fun phase hretires => ⟨rfl, hprogress, rfl, hdelivery, ht.known, hretires, hissued.final_iff.1⟩⟩
  -- the request now stands among the answers
  have hrequests : (d.told (t.answer a.write) phase).requests = d.requests := by
    simp only [requests, told, hphase, hphase', List.map_append, List.map_cons, List.map_nil, DirectTurn.answer,
      Option.toList_none, List.append_nil]
    rfl
  exact ⟨hok, hfresh, hrequests ▸ hsent⟩

/-- The request is resolved: the work goes on, has drained, or has failed. -/
theorem DirectWork.Stands.resolve (hl : l.WF) (ht : t.Fits d.work.identity) (h : d.Stands p (l.lookup d.work.identity))
    {w : PlannedWriteRequest} (hphase : d.phase = .executing w) : d.Moves p l (d.turn p t l) := by
  have hresolves := h.resolves hl ht hphase
  have hpotential : d.potential = 2 * d.cursor.remaining.toNat + 3 := by simp only [potential, hphase]
  have hclosed := planningClosed_settled w t.outcome
  have hkept := CompletionLedger.step_kept hl (.resolve w ⟨w.identity, t.outcome⟩ t.session)
  unfold Stands at h
  rw [hphase] at h
  obtain ⟨_, _, hprogress, a, rfl, hissued⟩ := h
  have hturn : d.turn p t l = ((l.resolve a.write ⟨a.write.identity, t.outcome⟩ t.session).2,
      d.told (t.answer a.write) (if t.outcome ≠ .applied then .failed
        else if (CompletionLedger.summarize (settledRecord a.write t.outcome)).drained then .drained else .planning)) := by
    unfold turn
    simp only [hphase, hresolves.result]
    rfl
  rw [hturn]
  by_cases hout : t.outcome = .applied
  · rw [if_neg (not_not_intro hout)]
    cases hfinal : a.write.finalFragment with
    | true =>
      have hsummary := summarize_closed (hclosed.trans hfinal) rfl
      rw [if_pos (by rw [hsummary])]
      refine ⟨hkept, rfl, ?_, hresolves.others, by rw [hpotential]; exact Nat.le_add_left _ _⟩
      exact ⟨hresolves.under _ rfl, _, _, _, hresolves.ends _ (by simp [retires, hfinal]), hresolves.own,
        hclosed.trans hfinal, rfl, observed_settled _ _⟩
    | false =>
      have hsummary := summarize_open (hclosed.trans hfinal) rfl (by rw [observed_settled, hout]; rfl)
      rw [if_neg (by simp [hsummary])]
      refine ⟨hkept, rfl, ?_, hresolves.others, by rw [hpotential]; exact Nat.le_refl _⟩
      refine ⟨hresolves.under _ rfl, ?_, ?_, ?_⟩
      · rw [hresolves.own, hout, settledRecord_progress hissued hfinal]
        rfl
      · intro hnone
        rw [hissued.final_iff.2 hnone] at hfinal
        cases hfinal
      · intro x hx
        rcases List.mem_append.1 hx with hx | hx
        · exact hprogress x hx
        · obtain rfl := List.mem_singleton.1 hx
          exact ⟨hout, by rw [DirectTurn.answer, hout], hfinal⟩
  · rw [if_pos hout]
    refine ⟨hkept, rfl, ?_, hresolves.others, by rw [hpotential]; exact Nat.le_add_left _ _⟩
    exact ⟨hresolves.under .failed rfl, t.answer a.write, d.answers, hresolves.ends .failed (by simp [retires, hout]), hout,
      hresolves.own⟩

/-- Planning is closed; nothing else of the work is outstanding. -/
theorem DirectWork.Stands.close (hl : l.WF) (h : d.Stands p (l.lookup d.work.identity)) (hphase : d.phase = .failed) :
    d.Moves p l (d.turn p t l) := by
  have hpotential : d.potential = 2 := by simp only [potential, hphase]
  unfold Stands at h
  rw [hphase] at h
  obtain ⟨⟨hok, hfresh, hsent⟩, last, earlier, hends, hout, hrecord⟩ := h
  have hobserved := observed_settled last.request last.outcome
  obtain ⟨hne, hne'⟩ := workOutcomeFor_failed hends.known hout
  obtain ⟨_, hlookup⟩ := CompletionLedger.closePlanningAfterFailure_spec hl hrecord (by rw [hobserved]; exact hne)
    (by rw [hobserved]; exact hne')
  have hturn : d.turn p t l = ((l.closePlanningAfterFailure d.work.identity).2, { d with phase := .drained }) := by
    unfold turn
    simp only [hphase]
  simp only [requests, hphase] at hsent
  rw [hturn]
  refine ⟨CompletionLedger.step_kept hl (.closePlanningAfterFailure _), rfl, ?_, fun w hw => (hlookup w).trans (if_neg hw), ?_⟩
  · exact ⟨⟨hok, hfresh, hsent⟩, last, earlier, _,
      ⟨hends.answers, hends.progress, hends.decision, hends.delivery, hends.known, hends.retires, hends.reaches⟩,
      (hlookup _).trans (if_pos rfl), rfl, rfl, hobserved⟩
  · rw [hpotential]
    exact Nat.le_refl 1

/-- The work has drained and is released. -/
theorem DirectWork.Stands.release (hl : l.WF) (h : d.Stands p (l.lookup d.work.identity)) (hphase : d.phase = .drained) :
    d.Moves p l (d.turn p t l) := by
  unfold Stands at h
  rw [hphase] at h
  obtain ⟨⟨hok, hfresh, hsent⟩, last, earlier, r, hends, hrecord, hclosed, hidle, hobserved⟩ := h
  have hsummary := summarize_closed hclosed hidle
  obtain ⟨hstatus, _, hlookup⟩ := CompletionLedger.release_spec hl hrecord (by rw [hsummary])
  have hturn : d.turn p t l =
      ((l.release d.work.identity).2, { d with phase := .released (CompletionLedger.summarize r) }) := by
    unfold turn
    simp only [hphase, CompletionLedger.summary_spec hl hrecord, hsummary, hstatus, if_true]
  simp only [requests, hphase] at hsent
  rw [hturn]
  refine ⟨CompletionLedger.step_kept hl (.release _), rfl, ?_, fun w hw => (hlookup w).trans (if_neg hw), Nat.zero_le _⟩
  exact ⟨⟨hok, hfresh, hsent⟩, (hlookup _).trans (if_pos rfl), last, earlier,
    ⟨hends.answers, hends.progress, hends.decision, hends.delivery, hends.known, hends.retires, hends.reaches⟩,
    by rw [hsummary, hobserved], by rw [hsummary], by rw [hsummary]⟩

/-- **Every turn.** -/
theorem DirectWork.Stands.turn (hp : p.RoutesOk) (hl : l.WF) (ht : t.Fits d.work.identity)
    (h : d.Stands p (l.lookup d.work.identity))
    (hroom : l.lookup d.work.identity = none → l.size.toNat < l.capacity.toNat) : d.Moves p l (d.turn p t l) := by
  have hstill : d.turn p t l = (l, d) → d.potential = 0 → d.Moves p l (d.turn p t l) := by
    intro heq hnone
    rw [heq]
    exact ⟨⟨hl, rfl⟩, rfl, h, fun _ _ => rfl, by rw [hnone]⟩
  cases hphase : d.phase with
  | fresh =>
    have hnone := h
    unfold Stands at hnone
    rw [hphase] at hnone
    exact h.begin hp hl hphase (hroom hnone.1)
  | planning => exact h.plan hp hl hphase
  | executing w => exact h.resolve hl ht hphase
  | failed => exact h.close hl hphase
  | drained => exact h.release hl hphase
  | _ => exact hstill (by unfold DirectWork.turn; rw [hphase]) (by simp only [potential, hphase])

end

/-! ## What came of a work -/

/-- What a caller that began with `work` can rely on. -/
structure DirectSound (p : ForwardPlanner) (work : Ingress) (d : DirectWork) : Prop where
  same : d.work = work
  unstuck : d.phase ≠ .stuck
  /-- What was recorded are the fragments of the work in order, none left out. -/
  planned : d.requests = [] ∨ Sent p (work.slot .null) d.requests d.cursor
  one_notice : d.notices.length ≤ 1
  /-- The work is released as what its last answer was; every answer before was an applied request. -/
  released : ∀ summary, d.phase = .released summary → summary.settled = true ∧ summary.drained = true ∧
    ∃ last earlier, d.answers = earlier ++ [last] ∧ (∀ x ∈ earlier, x.outcome = .applied) ∧
      summary.outcome = workOutcomeFor last.outcome ∧
      d.notices = (if tracksPublicCompletion work.delivery then
        [if last.outcome = .applied then .workSucceeded else .workFailed] else []) ∧
      (last.outcome = .applied → Covers work.start work.count d.requests)

section
variable {p : ForwardPlanner} {d : DirectWork}

theorem notices_progress {xs : List DirectAnswer} (h : ∀ x ∈ xs, x.Progress) :
    (xs.map (·.resolution.decision.notice)).filter (· ≠ .none) = [] := by
  rw [List.filter_eq_nil_iff]
  intro notice hnotice
  obtain ⟨x, hx, rfl⟩ := List.mem_map.1 hnotice
  simp [(h x hx).decision, decisionFor, (h x hx).more]

theorem DirectWork.Ends.notices {last : DirectAnswer} {earlier : List DirectAnswer} (h : d.Ends last earlier) :
    d.notices = if tracksPublicCompletion d.work.delivery then
      [if last.outcome = .applied then .workSucceeded else .workFailed] else [] := by
  have hfinal : last.outcome = .applied → last.request.finalFragment = true := by
    intro hout
    simpa [ModbusRTUBridge.retires, hout] using h.retires
  rw [DirectWork.notices, h.answers, List.map_append, List.filter_append, notices_progress h.progress, List.nil_append,
    List.map_singleton, h.decision, ← h.delivery]
  unfold decisionFor
  by_cases hout : last.outcome = .applied
  · cases htracked : tracksPublicCompletion last.request.delivery <;> simp [hout, hfinal hout]
  · cases htracked : tracksPublicCompletion last.request.delivery <;> simp [hout]

/-- The work is done as its last answer was. -/
theorem DirectWork.Ends.one_notice {last : DirectAnswer} {earlier : List DirectAnswer} (h : d.Ends last earlier) :
    d.notices.length ≤ 1 := by
  rw [h.notices]
  split <;> simp

theorem DirectWork.Stands.sound {record : Option CompletionLedgerSlot} (h : d.Stands p record) : DirectSound p d.work d := by
  unfold Stands at h
  have hsent : ∀ hunder : d.Under p, d.requests = [] ∨ Sent p (d.work.slot .null) d.requests d.cursor :=
    fun hunder => Or.inr hunder.sent
  have hquiet : (∀ x ∈ d.answers, x.Progress) → d.notices.length ≤ 1 := by
    intro hprogress
    rw [notices, notices_progress hprogress]
    exact Nat.zero_le _
  cases hphase : d.phase with
  | fresh =>
    rw [hphase] at h
    exact ⟨rfl, by simp [hphase], Or.inl (by simp [requests, h.2, hphase, DirectPhase.request]), hquiet (by simp [h.2]),
      by simp [hphase]⟩
  | refused =>
    rw [hphase] at h
    exact ⟨rfl, by simp [hphase], Or.inl (by simp [requests, h.2, hphase, DirectPhase.request]), hquiet (by simp [h.2]),
      by simp [hphase]⟩
  | planning =>
    rw [hphase] at h
    exact ⟨rfl, by simp [hphase], hsent h.1, hquiet h.2.2.2, by simp [hphase]⟩
  | executing w =>
    rw [hphase] at h
    exact ⟨rfl, by simp [hphase], hsent h.1, hquiet h.2.2.1, by simp [hphase]⟩
  | failed =>
    rw [hphase] at h
    obtain ⟨hunder, last, earlier, hends, _⟩ := h
    exact ⟨rfl, by simp [hphase], hsent hunder, hends.one_notice, by simp [hphase]⟩
  | drained =>
    rw [hphase] at h
    obtain ⟨hunder, last, earlier, r, hends, _⟩ := h
    exact ⟨rfl, by simp [hphase], hsent hunder, hends.one_notice, by simp [hphase]⟩
  | released summary =>
    rw [hphase] at h
    obtain ⟨hunder, _, last, earlier, hends, houtcome, hsettled, hdrained⟩ := h
    refine ⟨rfl, by simp [hphase], hsent hunder, hends.one_notice, fun summary' he => ?_⟩
    obtain rfl := DirectPhase.released.inj (hphase.symm.trans he)
    refine ⟨hsettled, hdrained, last, earlier, hends.answers, fun x hx => (hends.progress x hx).outcome, houtcome, hends.notices,
      fun hout => ?_⟩
    have hfinal : last.request.finalFragment = true := by simpa [retires, hout] using hends.retires
    have hcovers := hunder.sent.covers hunder.fresh (hunder.sent.ok hunder.ok) (hends.reaches hfinal)
    rwa [Ingress.slot_upstreamStart, Ingress.slot_quantity] at hcovers
  | stuck =>
    rw [hphase] at h
    exact h.elim

end

/-! ## All callers -/

open StoreForwardBridge (testBridge testMemory testSession firstWork secondWork)

section
variable {n : Nat} {p : ForwardPlanner} {slots : Storage CompletionLedgerSlot} {capacity : UInt16} {works : Fin n → Ingress}

/-- Callers that have not begun, over a fresh ledger. -/
def directStart (slots : Storage CompletionLedgerSlot) (capacity : UInt16) (works : Fin n → Ingress) :
    Parties.State CompletionLedger DirectWork (Fin n) :=
  ⟨.create slots capacity, fun k => { work := works k }⟩

/-- The callers take turns in any order. -/
def directRun (p : ForwardPlanner) (s : Parties.State CompletionLedger DirectWork (Fin n))
    (turns : List (Fin n × DirectTurn)) :
    Parties.State CompletionLedger DirectWork (Fin n) :=
  Machine.final (Parties.step fun _ t l d => d.turn p t l) s turns

/-- What all callers and the ledger keep. -/
abbrev DirectKept (p : ForwardPlanner) (capacity : UInt16) (works : Fin n → Ingress) :
    Parties.State CompletionLedger DirectWork (Fin n) → Prop :=
  Parties.Kept CompletionLedger.lookup (fun k => (works k).identity) (fun l => l.WF ∧ l.capacity = capacity)
    fun k d record => d.work = works k ∧ d.Stands p record

theorem DirectKept.start (hstorage : capacity = 0 ∨ slots.isNone = false) :
    DirectKept p capacity works (directStart slots capacity works) := by
  obtain ⟨hwf, hnone⟩ := CompletionLedger.create_spec hstorage
  exact ⟨⟨hwf, rfl⟩, fun k => ⟨rfl, hnone _, rfl⟩, fun w _ => hnone w⟩

/-- While a caller has nothing on file there is room for it. -/
theorem DirectKept.room {s : Parties.State CompletionLedger DirectWork (Fin n)} (h : DirectKept p capacity works s)
    (hroom : n ≤ capacity.toNat) {k : Fin n} (hk : s.store.lookup (works k).identity = none) :
    s.store.size.toNat < s.store.capacity.toNat := by
  have hm : Refines s.store ⟨s.store.capacity.toNat, s.store.lookup⟩ := ⟨h.valid.1, rfl, fun _ => rfl⟩
  have hlt := h.entries_lt hk
  rw [Fintype.card_fin, ← hm.keys_eq, hm.size_eq] at hlt
  rw [h.valid.2]
  omega

theorem directRun_kept (hp : p.RoutesOk) (hroom : n ≤ capacity.toNat)
    (hdistinct : Function.Injective fun k => (works k).identity) {s : Parties.State CompletionLedger DirectWork (Fin n)}
    (h : DirectKept p capacity works s) {turns : List (Fin n × DirectTurn)}
    (hturns : ∀ x ∈ turns, x.2.Fits (works x.1).identity) :
    DirectKept p capacity works (directRun p s turns) ∧
    ∀ k, ((directRun p s turns).parties k).potential ≤ (s.parties k).potential - turns.countP (fun x => x.1 = k) := by
  refine Parties.run_kept hdistinct (fun _ => DirectWork.potential) (fun k t => t.Fits (works k).identity)
    (fun s k t h ht => ?_) h hturns
  obtain ⟨hwork, hstands⟩ := h.own k
  rw [← hwork] at hstands ht
  have hmoves := hstands.turn hp h.valid.1 ht fun hnone => DirectKept.room h hroom (hwork ▸ hnone)
  refine ⟨⟨⟨hmoves.kept.1, hmoves.kept.2.trans h.valid.2⟩, ⟨hmoves.work.trans hwork, ?_⟩, fun w hw => ?_⟩, hmoves.lower⟩
  · show DirectWork.Stands p _ (CompletionLedger.lookup _ (works k).identity)
    rw [← hwork]
    exact hmoves.own
  · exact hmoves.others w (hwork ▸ hw)

/-- A work that is over is not on file. -/
theorem DirectWork.Stands.over {d : DirectWork} {record : Option CompletionLedgerSlot} (h : d.Stands p record) :
    (d.potential = 0 → d.Over) ∧ (d.Over → record = none) := by
  unfold Stands at h
  unfold potential Over
  cases hphase : d.phase <;> simp only [hphase] at h ⊢ <;> simp_all

/-- **Works planned directly settle.** The works have identities of their own, the ledger has room for all
of them, and at every turn the caller's session is one its work is current in and the outcome a known
one. Then, whatever order the callers take turns in, the ledger never refuses a call; every work is
recorded in planning order, announced at most once and released as what became of it, and each
caller is through after as many turns as its work can need. Then the ledger is empty again. -/
theorem direct_works_settle (hp : p.RoutesOk) (hstorage : capacity = 0 ∨ slots.isNone = false) (hroom : n ≤ capacity.toNat)
    (hdistinct : Function.Injective fun k => (works k).identity) (turns : List (Fin n × DirectTurn))
    (hturns : ∀ x ∈ turns, x.2.Fits (works x.1).identity) :
    let s := directRun p (directStart slots capacity works) turns
    (∀ k, DirectSound p (works k) (s.parties k)) ∧
    (∀ k, 2 * (works k).count.toNat + 3 ≤ turns.countP (fun x => x.1 = k) → (s.parties k).Over) ∧
    ((∀ k, (s.parties k).Over) → s.store.size = 0) := by
  obtain ⟨hkept, hpotential⟩ := directRun_kept hp hroom hdistinct (.start hstorage) hturns
  generalize directRun p (directStart slots capacity works) turns = s at *
  refine ⟨fun k => ?_, fun k hk => ?_, fun hover => ?_⟩
  · obtain ⟨hwork, hstands⟩ := hkept.own k
    rw [← hwork]
    exact hstands.sound
  · refine ((hkept.own k).2.over).1 (Nat.le_zero.1 ((hpotential k).trans (Nat.le_zero.2 ?_)))
    exact Nat.sub_eq_zero_of_le hk
  · have hm : Refines s.store ⟨s.store.capacity.toNat, s.store.lookup⟩ := ⟨hkept.valid.1, rfl, fun _ => rfl⟩
    have hempty : ∀ w, s.store.lookup w = none := by
      intro w
      by_cases hw : ∃ k, (works k).identity = w
      · obtain ⟨k, rfl⟩ := hw
        exact ((hkept.own k).2.over).2 (hover k)
      · exact hkept.foreign w fun k hk => hw ⟨k, hk⟩
    have hsize := hm.size_eq
    rw [hm.keys_eq] at hsize
    simp only [hempty, Option.isSome_none, Bool.false_eq_true, Set.ofPred_false, Set.ncard_empty] at hsize
    exact UInt16.toNat_inj.1 hsize.symm

/-- Three turns for each of two works, then more for both; the first work's second fragment is not sent. -/
def testDirectTurns : List (Fin 2 × DirectTurn) :=
  let turn (k : Fin 2) (outcome : DownstreamOutcome) : Fin 2 × DirectTurn := (k, ⟨testMemory, testSession, outcome⟩)
  (List.replicate 3 [turn 0 .applied, turn 1 .applied]).flatten ++
    (List.replicate 8 [turn 1 .applied, turn 0 .definitelyNotSent]).flatten

def testDirectWorks : Fin 2 → Ingress
  | 0 => .holding firstWork
  | 1 => .holding secondWork

theorem direct_works_settle_test :
    let s := directRun testBridge.forwardPlanner (directStart (some fun _ => {}) 2 testDirectWorks) testDirectTurns
    (∀ k, DirectSound testBridge.forwardPlanner (testDirectWorks k) (s.parties k)) ∧ s.store.size = 0 ∧
    (s.parties 0).answers.map (·.outcome) = [.applied, .definitelyNotSent] ∧ (s.parties 1).notices = [.workSucceeded] :=
  have hstorage : (2 : UInt16) = 0 ∨ (some fun _ => {} : Storage CompletionLedgerSlot).isNone = false := Or.inr rfl
  have h := direct_works_settle StoreForwardBridge.testBridge_deployed.coherent.routes hstorage (by decide)
    (by decide : Function.Injective fun k => (testDirectWorks k).identity) testDirectTurns (by decide +kernel)
  ⟨h.1, h.2.2 (by decide +kernel), by decide +kernel, by decide +kernel⟩

end

end ModbusRTUBridge
