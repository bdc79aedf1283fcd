import ModbusRTUBridge.Fairness
import ModbusRTUBridge.ServiceLoop
/-!
# The service loop serves every poll that is due

The other half of what the loop promises. While a candidate is due, a turn of the loop always
comes to an action, whatever arrives, goes stale or fails; so its turns are turns of the planner,
none left out, and the planner's fairness bounds how long the candidate waits.

| here | there |
| --- | --- |
| `asking` | the facade when a turn calls `nextAction` |
| `Polled` | `admitAction` of a `Poll`: `Admitted` and then `complete`, or `Consumed` without `requiresDispatch` |
-/

namespace ModbusRTUBridge

open PollPlanner (isDue Turns turns_fair)

namespace StoreForwardBridge

/-- The facade of a turn that has admitted what arrived and discarded what is stale. -/
def asking (b : StoreForwardBridge) (t : ServiceTurn) : StoreForwardBridge :=
  let f := b.run (arrivalCalls t)
  f.run (discardCalls t (f.workQueue.size.toNat + 1) f)

/-- What it is offered. -/
def offered (b : StoreForwardBridge) (t : ServiceTurn) : StoreForwardAction :=
  ((b.asking t).nextAction t.memory t.session t.now t.polls t.pollCount t.writeConsistencyContext).2

/-- A turn of the loop as the planner sees it. -/
def plannerTurn (b : StoreForwardBridge) (t : ServiceTurn) : Turn :=
  ⟨t.now, (b.asking t).queue.head?.isSome, t.polls, (b.offered t).scheduling⟩

/-- The planner's turns of a loop. -/
def plannerTurns (b : StoreForwardBridge) (calls : List Call) (ts : List ServiceTurn) : List Turn :=
  (Machine.trace b.serviceTurn calls ts).map fun e => (b.run e.before).plannerTurn e.input

/-- The calls of a turn polled candidate `i`: as the turn describes it, and to the end. -/
structure Polled (t : ServiceTurn) (i : UInt16) (a : StoreForwardAction)
    (tr : List (Machine.Event StoreForwardBridge Call Res)) : Prop where
  kind : a.kind = .poll
  dispatch : a.requiresCompletion = (t.polls.at i.toNat).requiresDispatch
  request : a.requiresCompletion = true → a.downstream = { (t.polls.at i.toNat).request with sequence := a.sequence }
  accepted : ∃ e ∈ tr, e.input.op = .admitAction a t.session t.polls t.pollCount ∧
    e.output = .actionAdmission (if a.requiresCompletion then .admitted else .consumed)
  completed : a.requiresCompletion = true → ∃ e ∈ tr, e.input.op = .complete a t.outcome t.session ∧
    e.output = .completion { status := .completed, kind := .poll, outcome := t.outcome }

variable {b b' : StoreForwardBridge} {t : ServiceTurn} {a : StoreForwardAction} {n i : UInt16}

/-! ## One action -/

/-- A completion commits nothing. -/
theorem Step.completes {c : Call} {r : Res} (hs : Step b c r b') {outcome : DownstreamOutcome} {session : SessionStateView}
    (hop : c.op = .complete a outcome session) : b'.pollState = b.pollState := by
  cases hs with
  | refused => rfl
  | pollCompleted => rfl
  | settled => rfl
  | stale => rfl
  | dropped hdrop => simp [hop] at hdrop
  | reset hreset => simp [hop] at hreset
  | _ => simp at hop

theorem pollState_complete (h : b.Coherent) (a : StoreForwardAction) (outcome : DownstreamOutcome) (session : SessionStateView) :
    (b.complete a outcome session).2.pollState = b.pollState :=
  (exec_step h ⟨⟨fun _ => false, fun _ => 0⟩, .complete a outcome session⟩).completes rfl

theorem selectedAt_of_ready {m : Memory} {session : SessionStateView} {now : UInt32} {polls : Storage PollCandidate} {ctx : Ptr}
    (h : b.Coherent) (hready : b.nextAction m session now polls n ctx = (.ready, a)) : a.selectedAt = now := by
  simp only [nextAction, Prod.mk.injEq] at hready
  obtain ⟨hstatus, rfl⟩ := hready
  rcases previewAction_cases h m session now polls n ctx with ⟨hbad, _⟩ | ⟨_, _, i, hp⟩ | ⟨_, _, front, hw, _⟩
  · exact absurd hstatus hbad
  · rw [hp.shape]
  · rw [hw.shape]

/-- The events of an action that is ready. -/
theorem history_actionCalls
    (hready : b.nextAction t.memory t.session t.now t.polls t.pollCount t.writeConsistencyContext = (.ready, a)) :
    let admission := b.admitAction t.memory a t.session t.polls t.pollCount
    (∃ e ∈ b.history (b.actionCalls t), e.input.op = .admitAction a t.session t.polls t.pollCount ∧
      e.output = .actionAdmission admission.1) ∧
    (admission.1 = .admitted → ∃ e ∈ b.history (b.actionCalls t), e.input.op = .complete a t.outcome t.session ∧
      e.output = .completion (admission.2.complete a t.outcome t.session).1) := by
  intro admission
  have hpreview : ∀ m x, (b.exec ⟨m, .nextAction t.session t.now t.polls t.pollCount x⟩).2 = b := fun _ _ => rfl
  have hadmit : b.exec ⟨t.memory, .admitAction a t.session t.polls t.pollCount⟩ =
      (.actionAdmission admission.1, admission.2) := rfl
  simp only [actionCalls, hready, if_true, history, Machine.trace_cons, hpreview, hadmit]
  refine ⟨⟨_, List.mem_cons_of_mem _ List.mem_cons_self, rfl, rfl⟩, fun hok => ?_⟩
  rw [if_pos hok]
  exact ⟨_, List.mem_cons_of_mem _ (List.mem_cons_of_mem _ List.mem_cons_self), rfl, rfl⟩

/-- What is committed for a proposed poll is what was selected. -/
theorem PollProposal.selects (hp : PollProposal b t.session a.selectedAt t.polls t.pollCount i a)
    (hnow : a.selectedAt = t.now) :
    b.pollPlanner.select t.now b.queue.head?.isSome t.polls t.pollCount b.pollState = (.selected, a.scheduling) ∧
    b.commitProposal a = (PollPlanner.commit a.scheduling t.pollCount t.now b.pollState).2 ∧ a.scheduling.pollIndex = i := by
  have hsched : a.scheduling = .fromCandidateSet .poll i t.pollCount := by rw [hp.shape]
  have hcount : a.pollCount = t.pollCount := by rw [hp.shape]
  refine ⟨?_, by rw [commitProposal, hcount, hnow], by rw [hsched]; rfl⟩
  rw [← hnow, hsched]
  exact hp.selected

/-- A poll that is admitted is served to the end. -/
theorem PollProposal.polled (hp : PollProposal b t.session a.selectedAt t.polls t.pollCount i a)
    (hknown : isKnownDownstreamOutcome t.outcome = true)
    (hready : b.nextAction t.memory t.session t.now t.polls t.pollCount t.writeConsistencyContext = (.ready, a))
    (hadmitted : b.admitAction t.memory a t.session t.polls t.pollCount =
      if a.requiresCompletion then (.admitted, b.afterPoll a) else (.consumed, b.afterSkip a)) :
    Polled t i a (b.history (b.actionCalls t)) := by
  obtain ⟨hadmits, hcompletes⟩ := history_actionCalls hready
  have hkind : a.kind = .poll := by rw [hp.shape]
  have hctx : a.workContext = .null := by rw [hp.shape]
  refine ⟨hkind, by rw [hp.shape], fun hreq => (hp.dispatched hreq).2.1, ?_, fun hreq => ?_⟩
  · rw [hadmitted] at hadmits
    cases hreq : a.requiresCompletion <;> simpa [hreq] using hadmits
  · rw [if_pos hreq] at hadmitted
    have hdone : (b.afterPoll a).complete a t.outcome t.session =
        ({ status := .completed, kind := .poll, outcome := t.outcome, workContext := a.workContext },
          (b.afterPoll a).landed) := complete_poll rfl rfl hkind hknown
    rw [hadmitted] at hcompletes
    simpa only [hdone, hctx] using hcompletes rfl

/-- **What a ready preview selects is what its admission commits.** -/
theorem action_commits (h : b.Coherent) (hknown : isKnownDownstreamOutcome t.outcome = true)
    (hready : b.nextAction t.memory t.session t.now t.polls t.pollCount t.writeConsistencyContext = (.ready, a)) :
    b.pollPlanner.select t.now b.queue.head?.isSome t.polls t.pollCount b.pollState = (.selected, a.scheduling) ∧
    (b.run (b.actionCalls t)).pollState = (PollPlanner.commit a.scheduling t.pollCount t.now b.pollState).2 ∧
    (a.scheduling.kind = .poll → Polled t a.scheduling.pollIndex a (b.history (b.actionCalls t))) := by
  have hnow := selectedAt_of_ready h hready
  have hadmission := exec_coherent h ⟨t.memory, .admitAction a t.session t.polls t.pollCount⟩
  simp only [exec] at hadmission
  rw [run_actionCalls_ready hready]
  rcases admitAction_cases h t.memory a t.session t.polls t.pollCount with
    ⟨hno, _⟩ | ⟨_, _, ⟨i, hp, hreq, heq⟩ | ⟨i, hp, hreq, heq⟩ | ⟨front, hw, heq⟩⟩
  · exact absurd (proposes_of_preview h hready) hno
  · obtain ⟨hselected, hcommitted, hindex⟩ := hp.selects hnow
    refine ⟨hselected, ?_, fun _ => ?_⟩
    · simp only [heq, reduceCtorEq, if_false, afterSkip, hcommitted]
    · rw [hindex]
      exact hp.polled hknown hready (by rw [heq, hreq]; rfl)
  · obtain ⟨hselected, hcommitted, hindex⟩ := hp.selects hnow
    rw [heq] at hadmission
    refine ⟨hselected, ?_, fun _ => ?_⟩
    · simp only [heq, if_true, pollState_complete hadmission]
      simp only [afterPoll, hcommitted]
    · rw [hindex]
      exact hp.polled hknown hready (by rw [heq, hreq]; rfl)
  · have hsched : a.scheduling = PollPlanner.forwardSelection t.pollCount := by rw [hw.shape]
    have hcount : a.pollCount = t.pollCount := by rw [hw.shape]
    rw [heq] at hadmission
    refine ⟨by rw [← hnow, hsched, hw.head]; exact hw.selected, ?_, fun hk => by rw [hsched] at hk; cases hk⟩
    simp only [heq, if_true, pollState_complete hadmission]
    simp only [afterWrite, commitProposal, hcount, hnow]

/-! ## A turn -/

theorem serviceCalls_eq (b : StoreForwardBridge) (t : ServiceTurn) : ∃ before,
    b.serviceCalls t = before ++ (b.asking t).actionCalls t ∧ b.run before = b.asking t := by
  refine ⟨arrivalCalls t ++ discardCalls t ((b.run (arrivalCalls t)).workQueue.size.toNat + 1) (b.run (arrivalCalls t)), ?_, ?_⟩
  · rw [List.append_assoc]
    rfl
  · exact Machine.final_append exec _ _ _

theorem run_serviceCalls (b : StoreForwardBridge) (t : ServiceTurn) :
    b.run (b.serviceCalls t) = (b.asking t).run ((b.asking t).actionCalls t) := by
  obtain ⟨before, hcalls, hbefore⟩ := b.serviceCalls_eq t
  rw [hcalls, ← hbefore]
  exact Machine.final_append exec _ _ _

theorem history_serviceCalls (b : StoreForwardBridge) (t : ServiceTurn) :
    ∀ e ∈ (b.asking t).history ((b.asking t).actionCalls t), e ∈ b.history (b.serviceCalls t) := by
  obtain ⟨before, hcalls, hbefore⟩ := b.serviceCalls_eq t
  intro e he
  rw [hcalls, history_append, hbefore]
  exact List.mem_append_right _ he

theorem Polled.mono {tr tr' : List (Machine.Event StoreForwardBridge Call Res)} (h : Polled t i a tr)
    (hsub : ∀ e ∈ tr, e ∈ tr') : Polled t i a tr' := by
  obtain ⟨e, he, haccepted⟩ := h.accepted
  refine ⟨h.kind, h.dispatch, h.request, ⟨e, hsub e he, haccepted⟩, fun hreq => ?_⟩
  obtain ⟨e, he, hcompleted⟩ := h.completed hreq
  exact ⟨e, hsub e he, hcompleted⟩

/-- What the facade is when it asks. -/
theorem asking_spec (h : b.Coherent) (hf : b.inFlight = false) (t : ServiceTurn) :
    (b.asking t).Coherent ∧ (b.asking t).inFlight = false ∧
    (∀ s ∈ (b.asking t).queue.head?, workCurrent s.workIdentity t.session = true) ∧
    (b.asking t).pollState = b.pollState ∧ (b.asking t).pollPlanner = b.pollPlanner := by
  obtain ⟨hidle, hpoll, _⟩ := run_arrivalCalls h t
  obtain ⟨hdone, _⟩ := run_discardCalls (t := t) (run_coherent h (arrivalCalls t)) (hidle.trans hf) _ (fuel_enough _)
  exact ⟨hdone.coherent, hdone.idle, hdone.front_current, hdone.pollState.trans hpoll,
    hdone.pollPlanner.trans (run_planners h _).2⟩

/-- **A turn of the loop while a candidate is due** is a turn of the planner. -/
theorem turn_commits (h : b.Coherent) (hf : b.inFlight = false) (ht : t.Serviceable) (hi : i.toNat < t.pollCount.toNat)
    (hdue : isDue t.now t.polls i = true) :
    (b.run (b.serviceCalls t)).inFlight = false ∧
    b.pollPlanner.select t.now (b.plannerTurn t).forwardReady t.polls t.pollCount b.pollState =
      (.selected, (b.plannerTurn t).selection) ∧
    (b.run (b.serviceCalls t)).pollState =
      (PollPlanner.commit (b.plannerTurn t).selection t.pollCount t.now b.pollState).2 ∧
    ∀ j, (b.plannerTurn t).Polls j → Polled t j (b.offered t) (b.history (b.serviceCalls t)) := by
  obtain ⟨hcoherent, hidle, hcur, hpoll, hplanner⟩ := asking_spec h hf t
  obtain ⟨a, hready⟩ := hcoherent.ready hidle hcur (Or.inr ⟨i, hi, hdue⟩) ht
  have hoffered : b.offered t = a := by rw [offered, hready]
  obtain ⟨hselected, hcommitted, hserved⟩ := action_commits hcoherent ht.outcome hready
  rw [hpoll, hplanner] at hselected
  rw [hpoll] at hcommitted
  rw [run_serviceCalls]
  refine ⟨(run_actionCalls hcoherent hidle ht.outcome).1, ?_, ?_, ?_⟩
  · simp only [plannerTurn, hoffered]
    exact hselected
  · simp only [plannerTurn, hoffered]
    exact hcommitted
  · rintro j ⟨hk, rfl⟩
    simp only [plannerTurn, hoffered] at hk ⊢
    exact (hserved hk).mono (b.history_serviceCalls t)

/-! ## The loop -/

/-- What a loop is at the end of some of its turns. -/
theorem service_append (b : StoreForwardBridge) (calls : List Call) (ts more : List ServiceTurn) :
    b.service calls (ts ++ more) = b.service (b.service calls ts) more := Machine.final_append b.serviceTurn calls ts more

theorem run_serviceTurn (b : StoreForwardBridge) (calls : List Call) (t : ServiceTurn) :
    b.run (b.serviceTurn calls t).2 = (b.run calls).run ((b.run calls).serviceCalls t) := Machine.final_append exec _ _ _

/-- Idle before, idle after, whatever the turns were. -/
theorem service_idle (hb : b.Deployed) {calls : List Call} (hidle : (b.run calls).inFlight = false) {ts : List ServiceTurn}
    (hts : ∀ t ∈ ts, isKnownDownstreamOutcome t.outcome = true) : (b.run (b.service calls ts)).inFlight = false := by
  induction ts generalizing calls with
  | nil => exact hidle
  | cons t ts ih =>
    refine ih ?_ fun t ht => hts t (List.mem_cons_of_mem _ ht)
    obtain ⟨hcoherent, hasking, _⟩ := asking_spec (run_coherent hb.coherent calls) hidle t
    rw [run_serviceTurn, run_serviceCalls]
    exact (run_actionCalls hcoherent hasking (hts t List.mem_cons_self)).1

/-- **The turns of a loop are turns of the planner** while candidate `i` is due. -/
theorem service_turns (hb : b.Deployed) {calls : List Call} (hidle : (b.run calls).inFlight = false) {ts : List ServiceTurn}
    (hi : i.toNat < n.toNat) (hts : ∀ t ∈ ts, t.Serviceable ∧ t.pollCount = n ∧ isDue t.now t.polls i = true) :
    Turns b.pollPlanner n (b.run calls).pollState (b.plannerTurns calls ts) := by
  induction ts generalizing calls with
  | nil => trivial
  | cons t ts ih =>
    obtain ⟨ht, rfl, hdue⟩ := hts t List.mem_cons_self
    obtain ⟨hdone, hselected, hcommitted, _⟩ := turn_commits (run_coherent hb.coherent calls) hidle ht hi hdue
    rw [(run_planners hb.coherent calls).2] at hselected
    rw [← run_serviceTurn] at hdone hcommitted
    have hrest := ih hdone fun t ht => hts t (List.mem_cons_of_mem _ ht)
    rw [hcommitted] at hrest
    exact ⟨hselected, hrest⟩

/-- **Every candidate that is due is polled in bounded time, whatever arrives.** In any stretch of
the loop of `n * (M + 1)` turns over `n` candidates, a candidate due at each of them is polled in
one of them. -/
theorem due_polls_served (hb : b.Deployed) {calls : List Call} (hidle : (b.run calls).inFlight = false)
    {earlier ts : List ServiceTurn} (hknown : ∀ t ∈ earlier, isKnownDownstreamOutcome t.outcome = true)
    (hts : ∀ t ∈ ts, t.Serviceable ∧ t.pollCount = n ∧ isDue t.now t.polls i = true) (hi : i.toNat < n.toNat)
    (hlong : ts.length = n.toNat * (b.pollPlanner.options.maxConsecutiveForwards.toNat + 1)) :
    ∃ pre t post a, ts = pre ++ t :: post ∧
      let f := b.run (b.service calls (earlier ++ pre))
      Polled t i a (f.history (f.serviceCalls t)) := by
  have hturns := service_turns hb (service_idle hb hidle hknown) hi hts
  have hlength : (b.plannerTurns (b.service calls earlier) ts).length = ts.length := by
    rw [plannerTurns, List.length_map, Machine.length_trace]
  -- the planner's turn that polls `i`, and the turn of the loop it is
  obtain ⟨turn, hmem, hpolls⟩ := (turns_fair (toNat_pos.1 (Nat.zero_lt_of_lt hi)) hturns).polled (by omega) i hi <| by
    intro turn hturn
    obtain ⟨e, he, rfl⟩ := List.mem_map.1 (List.mem_of_mem_take hturn)
    exact (hts e.input (Machine.input_mem b.serviceTurn he)).2.2
  obtain ⟨e, he, rfl⟩ := List.mem_map.1 (List.mem_of_mem_take hmem)
  obtain ⟨before, after, hsplit⟩ := List.append_of_mem he
  obtain ⟨pre, post, hpost, _, hbefore, _⟩ := Machine.trace_split b.serviceTurn hsplit
  obtain ⟨ht, hcount, hdue⟩ := hts e.input (by rw [hpost]; simp)
  have hbefore : e.before = b.service calls (earlier ++ pre) := by rw [service_append]; exact hbefore
  have hidle : (b.run (b.service calls (earlier ++ pre))).inFlight = false := by
    refine service_idle hb hidle fun t hmem => ?_
    rcases List.mem_append.1 hmem with hmem | hmem
    · exact hknown t hmem
    · exact (hts t (by rw [hpost]; exact List.mem_append_left _ hmem)).1.outcome
  rw [hbefore] at hpolls
  obtain ⟨_, _, _, hserved⟩ := turn_commits (run_coherent hb.coherent _) hidle ht (by rwa [hcount]) hdue
  exact ⟨pre, e.input, post, _, hpost, hserved i hpolls⟩

/-- A turn of the loop over two candidates that are always due. -/
def pairTurn : ServiceTurn := { loopTurn with polls := testPolls, pollCount := 2 }

theorem pairTurn_serviceable : pairTurn.Serviceable :=
  ⟨Or.inr rfl, fun _ _ _ _ => ⟨rfl, rfl⟩, by decide⟩

theorem pairTurn_due (i : UInt16) : isDue pairTurn.now pairTurn.polls i = true := by
  show (true && pollDeadlineReached32 0 0) = true
  decide

/-- A turn of a later session, then four over works that wait: each candidate has its poll. -/
theorem due_polls_served_test :
    let asks := fun pre => testBridge.run (testBridge.service (testCalls 0) ([lateTurn] ++ pre))
    (∃ pre t post a, List.replicate 4 pairTurn = pre ++ t :: post ∧
      Polled t 0 a ((asks pre).history ((asks pre).serviceCalls t))) ∧
    (∃ pre t post a, List.replicate 4 pairTurn = pre ++ t :: post ∧
      Polled t 1 a ((asks pre).history ((asks pre).serviceCalls t))) := by
  have hts : ∀ i : UInt16, ∀ t ∈ List.replicate 4 pairTurn,
      t.Serviceable ∧ t.pollCount = 2 ∧ isDue t.now t.polls i = true := by
    intro i t ht
    obtain rfl := (List.mem_replicate.1 ht).2
    exact ⟨pairTurn_serviceable, rfl, pairTurn_due i⟩
  exact ⟨due_polls_served testBridge_deployed (by decide +kernel) (by decide) (hts 0) (by decide) rfl,
    due_polls_served testBridge_deployed (by decide +kernel) (by decide) (hts 1) (by decide) rfl⟩

end StoreForwardBridge

end ModbusRTUBridge
