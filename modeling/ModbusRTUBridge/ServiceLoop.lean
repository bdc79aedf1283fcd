import ModbusRTUBridge.Ownership
import ModbusRTUBridge.StaleRetirement
import ModbusRTUBridge.WorkLine
/-!
# The service loop serves every work that waits

One turn of the loop the guide prescribes for a facade (`README.md`, "Coordinate work
cooperatively"; `include/modbus_rtu_bridge/README.md`, "Cooperative StoreForwardBridge"): what
arrived is admitted, works of other sessions are discarded one at a time, then a preview is asked
for, admitted, executed and completed. `debt` is what such a turn always lowers.

| here | there |
| --- | --- |
| `arrivalCalls` | `bridge.admitWork(work, session)` |
| `discardCalls` | `while(bridge.discardOneStaleWork(currentSession, retired) == Retired)` |
| `actionCalls`  | `nextAction`, then `admitAction` if `Ready`, then `complete` if `Admitted` |
-/

namespace ModbusRTUBridge

open PollPlanner (forwardSelection scanStart FirstDue)

/-- What the caller brings to a turn, and how the transport will end. -/
structure ServiceTurn where
  memory : Memory
  session : SessionStateView
  /-- Works that came in since the last turn, with their contexts. -/
  arrivals : List (Ingress × Ptr)
  now : UInt32
  polls : Storage PollCandidate
  pollCount : UInt16
  writeConsistencyContext : Ptr
  outcome : DownstreamOutcome

/-- Candidates a facade can work with, and an outcome it understands. -/
structure ServiceTurn.Serviceable (t : ServiceTurn) : Prop where
  storage : t.pollCount = 0 ∨ t.polls.isNone = false
  requests : ∀ i : UInt16, i.toNat < t.pollCount.toNat → PollPlanner.isDue t.now t.polls i = true →
    (t.polls.at i.toNat).requiresDispatch = true →
    isPollOperation (t.polls.at i.toNat).request.operation = true ∧
    validateDownstreamRequest (t.polls.at i.toNat).request = .valid
  outcome : isKnownDownstreamOutcome t.outcome = true

namespace StoreForwardBridge

/-- The discard loop, for as many turns as there are works. -/
def discardCalls (t : ServiceTurn) : Nat → StoreForwardBridge → List Call
  | 0, _ => []
  | fuel + 1, b =>
    ⟨t.memory, .discardOneStaleWork t.session⟩ ::
      if (b.discardOneStaleWork t.session).1 = .retired then discardCalls t fuel (b.discardOneStaleWork t.session).2.2
      else []

/-- Preview, admission, completion. -/
def actionCalls (b : StoreForwardBridge) (t : ServiceTurn) : List Call :=
  let (status, a) := b.nextAction t.memory t.session t.now t.polls t.pollCount t.writeConsistencyContext
  ⟨t.memory, .nextAction t.session t.now t.polls t.pollCount t.writeConsistencyContext⟩ ::
    if status = .ready then
      ⟨t.memory, .admitAction a t.session t.polls t.pollCount⟩ ::
        if (b.admitAction t.memory a t.session t.polls t.pollCount).1 = .admitted then
          [⟨t.memory, .complete a t.outcome t.session⟩]
        else []
    else []

def arrivalCalls (t : ServiceTurn) : List Call :=
  t.arrivals.map fun w => ⟨t.memory, .admitWork w.1 t.session w.2⟩

/-- The calls of a turn once the arrivals are in. -/
def workCalls (b : StoreForwardBridge) (t : ServiceTurn) : List Call :=
  let discards := discardCalls t (b.workQueue.size.toNat + 1) b
  discards ++ actionCalls (b.run discards) t

def serviceCalls (b : StoreForwardBridge) (t : ServiceTurn) : List Call :=
  arrivalCalls t ++ workCalls (b.run (arrivalCalls t)) t

/-- A turn after the calls made so far. -/
def serviceTurn (b : StoreForwardBridge) (calls : List Call) (t : ServiceTurn) : Unit × List Call :=
  ((), calls ++ serviceCalls (b.run calls) t)

/-- The calls made once the loop has taken the turns. -/
def service (b : StoreForwardBridge) (calls : List Call) (ts : List ServiceTurn) : List Call :=
  Machine.final b.serviceTurn calls ts

/-- A third work knocks at every turn, and a poll is always due. -/
def loopTurn : ServiceTurn where
  memory := testMemory
  session := testSession
  arrivals := [(.holding (makeIngressWork ⟨3, 9⟩ 103 1 .tracked ⟨3, 0⟩), .null)]
  now := 0
  polls := some fun _ =>
    { request := { operation := .readHoldingRegisters, endpointId := 10, quantity := 1, registerBuffer := ⟨9, 0⟩ }
      enabled := true }
  pollCount := 1
  writeConsistencyContext := .null
  outcome := .applied

/-- The same in a later session. -/
def lateTurn : ServiceTurn := { loopTurn with session := ⟨true, 10, 10, .ready⟩ }

/-! ## The discard loop -/

variable {b b' : StoreForwardBridge} {t : ServiceTurn} {s : StoreForwardWorkSlot} {rest : List StoreForwardWorkSlot} {j : Nat}

/-- What a discard loop leaves. -/
structure Discarded (b : StoreForwardBridge) (t : ServiceTurn) (b' : StoreForwardBridge) : Prop where
  coherent : b'.Coherent
  idle : b'.inFlight = false
  queue : b'.queue = b.queue.dropWhile fun s => !workCurrent s.workIdentity t.session
  pollState : b'.pollState = b.pollState
  pollPlanner : b'.pollPlanner = b.pollPlanner

theorem Discarded.front_current (h : Discarded b t b') : ∀ s ∈ b'.queue.head?, workCurrent s.workIdentity t.session = true := by
  intro s hs
  have hhead := List.head?_dropWhile_not (fun s : StoreForwardWorkSlot => !workCurrent s.workIdentity t.session) b.queue
  rw [← h.queue, Option.mem_def.1 hs] at hhead
  simpa using hhead

theorem run_discardCalls (h : b.Coherent) (hf : b.inFlight = false) (fuel : Nat) (hfuel : b.queue.length < fuel) :
    Discarded b t (b.run (discardCalls t fuel b)) ∧
    (b.history (discardCalls t fuel b)).map Machine.Event.output =
      (b.queue.takeWhile fun s => !workCurrent s.workIdentity t.session).map
        (fun s => Res.retirement .retired (retirementOf s)) ++
      [.retirement (if (b.queue.dropWhile fun s => !workCurrent s.workIdentity t.session) = [] then .empty
        else .workStillCurrent) {}] := by
  induction fuel generalizing b with
  | zero => omega
  | succ fuel ih =>
    cases hq : b.queue with
    | nil =>
      have hempty : b.discardOneStaleWork t.session = (.empty, {}, b) := by
        simp [discardOneStaleWork, hf, h.front_eq, hq]
      simp only [discardCalls, hempty, reduceCtorEq, if_false]
      refine ⟨⟨?_, ?_, ?_, ?_, ?_⟩, ?_⟩ <;>
        simp [run, history, exec, hempty, h, hf, hq]
    | cons s rest =>
      cases hcur : workCurrent s.workIdentity t.session with
      | true =>
        have hkept : b.discardOneStaleWork t.session = (.workStillCurrent, {}, b) := by
          simp [discardOneStaleWork, hf, h.front_eq, hq, hcur]
        simp only [discardCalls, hkept, reduceCtorEq, if_false]
        refine ⟨⟨?_, ?_, ?_, ?_, ?_⟩, ?_⟩ <;>
          simp [run, history, exec, hkept, h, hf, hq, hcur]
      | false =>
        have hgone := discardOneStaleWork_stale h hf hq hcur
        have hexec : b.exec ⟨t.memory, .discardOneStaleWork t.session⟩ =
            (.retirement .retired (retirementOf s), b.afterRetire s) := by simp only [exec, hgone]
        have hafter : (b.afterRetire s).Coherent := by
          have := exec_coherent h ⟨t.memory, .discardOneStaleWork t.session⟩
          rwa [hexec] at this
        have hqueue : (b.afterRetire s).queue = rest := (h.pop_queue hq).2
        obtain ⟨hdone, houts⟩ := ih hafter hf (by rw [hqueue]; rw [hq] at hfuel; simpa using hfuel)
        simp only [discardCalls, hgone, if_true]
        refine ⟨⟨?_, ?_, ?_, ?_, ?_⟩, ?_⟩
        · rw [run, Machine.final_cons, hexec]; exact hdone.coherent
        · rw [run, Machine.final_cons, hexec]; exact hdone.idle
        · rw [run, Machine.final_cons, hexec]
          have hleft := hdone.queue
          rw [hqueue] at hleft
          simpa [hq, hcur] using hleft
        · rw [run, Machine.final_cons, hexec]; exact hdone.pollState
        · rw [run, Machine.final_cons, hexec]; exact hdone.pollPlanner
        · rw [history, Machine.trace_cons, hexec]
          rw [hqueue] at houts
          simpa [hcur] using houts

theorem fuel_enough (b : StoreForwardBridge) : b.queue.length < b.workQueue.size.toNat + 1 := by
  rw [queue, FixedRingQueue.length_toList]
  exact Nat.lt_succ_self _

/-- **The discard loop hands back the stale works in front, one by one and in order, and stops.** -/
theorem discard_loop_exact (hb : b.Deployed) {calls : List Call} (hidle : (b.run calls).inFlight = false)
    (t : ServiceTurn) :
    let f := b.run calls
    let loop := discardCalls t (f.workQueue.size.toNat + 1) f
    (f.run loop).queue = (f.queue.dropWhile fun s => !workCurrent s.workIdentity t.session) ∧
    (f.history loop).map Machine.Event.output =
      (f.queue.takeWhile fun s => !workCurrent s.workIdentity t.session).map
        (fun s => Res.retirement .retired (retirementOf s)) ++
      [.retirement (if (f.run loop).queue = [] then .empty else .workStillCurrent) {}] := by
  intro f loop
  obtain ⟨hdone, houts⟩ := run_discardCalls (t := t) (run_coherent hb.coherent calls) hidle _ (fuel_enough f)
  rw [hdone.queue]
  exact ⟨rfl, houts⟩

/-- A work of the later session behind the second of the test. -/
def lateCalls : List Call :=
  testCalls 2 ++
    [⟨testMemory, .admitWork (.holding (makeIngressWork ⟨3, 10⟩ 103 1 .tracked ⟨3, 0⟩)) lateTurn.session .null⟩]

/-- Both works of the test go; a work of the session stops the loop. -/
theorem discard_loop_exact_test :
    let f := testBridge.run (testCalls 0)
    let g := testBridge.run lateCalls
    let loop := discardCalls lateTurn (g.workQueue.size.toNat + 1) g
    (f.run (discardCalls lateTurn (f.workQueue.size.toNat + 1) f)).queue =
      (f.queue.dropWhile fun s => !workCurrent s.workIdentity lateTurn.session) ∧
    (f.queue.dropWhile fun s => !workCurrent s.workIdentity lateTurn.session) = [] ∧ f.queue.length = 2 ∧
    (g.run loop).queue.map (·.workIdentity) = [⟨3, 10⟩] ∧
    (g.history loop).map Machine.Event.output =
      [.retirement .retired { work := ⟨2, 9⟩, table := .holdingRegisters }, .retirement .workStillCurrent {}] := by
  have hempties := discard_loop_exact testBridge_deployed
    (show (testBridge.run (testCalls 0)).inFlight = false by decide +kernel) lateTurn
  have hstops := discard_loop_exact testBridge_deployed
    (show (testBridge.run lateCalls).inFlight = false by decide +kernel) lateTurn
  exact ⟨hempties.1, by decide +kernel, by decide +kernel, by decide +kernel, hstops.2.trans (by decide +kernel)⟩

/-! ## One action -/

/-- An idle facade whose front work is current always has something to do: a work waits, or a
candidate is due. -/
theorem Coherent.ready (h : b.Coherent) (hf : b.inFlight = false)
    (hcur : ∀ s ∈ b.queue.head?, workCurrent s.workIdentity t.session = true)
    (hwork : b.queue ≠ [] ∨ ∃ i : UInt16, i.toNat < t.pollCount.toNat ∧ PollPlanner.isDue t.now t.polls i = true)
    (ht : t.Serviceable) :
    ∃ a, b.nextAction t.memory t.session t.now t.polls t.pollCount t.writeConsistencyContext = (.ready, a) := by
  rw [nextAction_line h]
  unfold WorkLine.nextAction
  have hqueue : b.line.queue = b.queue := rfl
  have hstale : ¬ (b.line.queue.head?.any fun s => !workCurrent s.workIdentity t.session) = true := by
    rw [hqueue, Option.any_eq_true]
    rintro ⟨s, hs, hno⟩
    rw [hcur s hs] at hno
    cases hno
  rw [line_inFlight_isSome, if_neg (by simp [hf]), if_neg hstale]
  -- a forward is proposed of a work only
  have hforward : b.line.queue.head?.isSome = true → ∃ s rest, b.line.queue = s :: rest := by
    intro hsome
    obtain ⟨s, hs⟩ := Option.isSome_iff_exists.1 hsome
    exact ⟨s, List.head?_eq_some_iff.1 hs⟩
  rcases PollPlanner.select_spec b.line.pollPlanner t.now b.line.pollState ht.storage b.line.queue.head?.isSome with
    ⟨i, hfirst, hsel⟩ | ⟨hnone, hsel⟩
  · rw [hsel]
    by_cases hburst : b.line.queue.head?.isSome = true ∧
        b.line.pollState.forwardsSincePoll < b.line.pollPlanner.options.maxConsecutiveForwards
    · obtain ⟨s, rest, hs⟩ := hforward hburst.1
      rw [if_pos hburst]
      simp only [PollSelection.fromCandidateSet, reduceCtorEq, if_false, hs]
      exact ⟨_, rfl⟩
    · rw [if_neg hburst]
      simp only [PollSelection.fromCandidateSet, if_true, WorkLine.pollAction]
      by_cases hreq : (t.polls.at i.toNat).requiresDispatch = true
      · obtain ⟨hop, hvalid⟩ := ht.requests i hfirst.lt hfirst.due hreq
        exact ⟨_, (if_pos hreq).trans (if_pos ⟨hop, hvalid⟩)⟩
      · exact ⟨_, if_neg hreq⟩
  · rcases hwork with hne | ⟨i, hi, hdue⟩
    · obtain ⟨s, rest, hs⟩ := List.exists_cons_of_ne_nil hne
      have hs : b.line.queue = s :: rest := hs
      rw [if_pos (by rw [hs]; rfl)] at hsel
      rw [hsel]
      simp only [forwardSelection, PollSelection.fromCandidateSet, reduceCtorEq, if_false, hs]
      exact ⟨_, rfl⟩
    · rw [hnone i hi] at hdue
      cases hdue

/-- What the preview of a turn comes to: nothing to do, a poll, or a fragment of the front work. -/
inductive Acted (b : StoreForwardBridge) (t : ServiceTurn) (b' : StoreForwardBridge) : Prop
  | idle (hno : ∀ a, b.nextAction t.memory t.session t.now t.polls t.pollCount t.writeConsistencyContext ≠ (.ready, a))
      (heq : b' = b)
  | poll (hburst : b.queue ≠ [] → ¬ b.pollState.forwardsSincePoll < b.pollPlanner.options.maxConsecutiveForwards)
      (hreset : b'.pollState.forwardsSincePoll = 0) (hq : b'.queue = b.queue)
  | write (s : StoreForwardWorkSlot) (rest : List StoreForwardWorkSlot) (hs : b.queue = s :: rest) (quantity : UInt16)
      (hpos : 0 < quantity.toNat) (hle : quantity.toNat ≤ s.remaining.toNat)
      (hq : b'.queue = rest ∨ b'.queue = s.advance quantity :: rest)

theorem Acted.length_le (h : Acted b t b') : b'.queue.length ≤ b.queue.length := by
  cases h with
  | idle _ heq => rw [heq]
  | poll _ _ hq => rw [hq]
  | write s rest hs _ _ _ hq => rcases hq with hq | hq <;> simp [hs, hq]

variable {a : StoreForwardAction} {i : UInt16}

/-- A poll is proposed over a waiting work once the burst is over. -/
theorem PollProposal.burst (hp : PollProposal b t.session a.selectedAt t.polls t.pollCount i a) (hq : b.queue ≠ []) :
    ¬ b.pollState.forwardsSincePoll < b.pollPlanner.options.maxConsecutiveForwards := by
  obtain ⟨s, rest, hs⟩ := List.exists_cons_of_ne_nil hq
  have hsel := hp.selected
  rw [hs] at hsel
  obtain ⟨hstore, _⟩ := PollPlanner.select_selected hsel
  intro hburst
  rcases PollPlanner.select_spec b.pollPlanner a.selectedAt b.pollState hstore true with ⟨_, _, hspec⟩ | ⟨_, hspec⟩
  · rw [if_pos ⟨rfl, hburst⟩] at hspec
    have := hsel.symm.trans hspec
    simp [PollSelection.fromCandidateSet] at this
  · rw [if_pos rfl] at hspec
    have := hsel.symm.trans hspec
    simp [PollSelection.fromCandidateSet] at this

/-- Its commit starts a new burst. -/
theorem PollProposal.commit (hp : PollProposal b t.session a.selectedAt t.polls t.pollCount i a) :
    (b.commitProposal a).forwardsSincePoll = 0 := by
  have hsched : a.scheduling = .fromCandidateSet .poll i t.pollCount := by rw [hp.shape]
  have hcount : a.pollCount = t.pollCount := by rw [hp.shape]
  have hn : t.pollCount ≠ 0 := toNat_pos.1 (Nat.zero_lt_of_lt hp.lt)
  rw [commitProposal, hsched, hcount, PollPlanner.commit_bound hn,
    if_pos ⟨rfl, UInt16.lt_iff_toNat_lt.2 hp.lt⟩]

/-- The calls of a preview that is ready. -/
theorem run_actionCalls_ready
    (hready : b.nextAction t.memory t.session t.now t.polls t.pollCount t.writeConsistencyContext = (.ready, a)) :
    b.run (b.actionCalls t) =
      if (b.admitAction t.memory a t.session t.polls t.pollCount).1 = .admitted
      then ((b.admitAction t.memory a t.session t.polls t.pollCount).2.complete a t.outcome t.session).2
      else (b.admitAction t.memory a t.session t.polls t.pollCount).2 := by
  have hpreview : ∀ m x, (b.exec ⟨m, .nextAction t.session t.now t.polls t.pollCount x⟩).2 = b := fun _ _ => rfl
  simp only [actionCalls, hready, if_true, run, Machine.final_cons, hpreview]
  split <;> rfl

/-- **One action.** The transport answers, so the facade is idle again. -/
theorem run_actionCalls (h : b.Coherent) (hf : b.inFlight = false) (hknown : isKnownDownstreamOutcome t.outcome = true) :
    (b.run (b.actionCalls t)).inFlight = false ∧ Acted b t (b.run (b.actionCalls t)) := by
  by_cases hready : ∃ a, b.nextAction t.memory t.session t.now t.polls t.pollCount t.writeConsistencyContext = (.ready, a)
  · obtain ⟨a, hready⟩ := hready
    obtain ⟨_, hprop⟩ := proposes_of_preview h hready
    rw [run_actionCalls_ready hready]
    rcases admitAction_cases h t.memory a t.session t.polls t.pollCount with
      ⟨hno, _⟩ | ⟨_, _, ⟨i, hp, hreq, heq⟩ | ⟨i, hp, hreq, heq⟩ | ⟨front, hw, heq⟩⟩
    · exact absurd ⟨hf, hprop⟩ hno
    · simp only [heq, reduceCtorEq, if_false]
      exact ⟨hf, .poll hp.burst hp.commit rfl⟩
    · have hkind : a.kind = .poll := by rw [hp.shape]
      have hcomplete : (b.afterPoll a).complete a t.outcome t.session =
          ({ status := .completed, kind := .poll, outcome := t.outcome, workContext := a.workContext },
            (b.afterPoll a).landed) := complete_poll rfl rfl hkind hknown
      simp only [heq, if_true, hcomplete]
      exact ⟨rfl, .poll hp.burst hp.commit rfl⟩
    · obtain ⟨rest, hq⟩ := List.head?_eq_some_iff.1 hw.head
      have hkind : a.kind = .forwardWrite := by rw [hw.shape]
      obtain ⟨_, hlist⟩ := FixedRingQueue.writeFront_spec h.queue (y := front.advance a.write.quantity) hq
      have hafter : (b.afterWrite front a).Coherent := by
        have := exec_coherent h ⟨t.memory, .admitAction a t.session t.polls t.pollCount⟩
        simpa only [exec, heq] using this
      have hwork : workCurrent a.write.identity.work t.session = true := by
        rw [hw.takes.identity]
        exact hw.current
      have hlist : (b.afterWrite front a).queue = front.advance a.write.quantity :: rest := hlist
      obtain ⟨l, hcomplete, _, _⟩ := complete_settles hafter (outstanding_afterWrite front hkind) hknown hwork hlist
      simp only [heq, if_true, hcomplete]
      refine ⟨rfl, .write front rest hq a.write.quantity hw.takes.pos hw.takes.le_remaining ?_⟩
      simp only [queue]
      cases retires a.write t.outcome with
      | true => exact Or.inl (hafter.pop_queue hlist).2
      | false => exact Or.inr hlist
  · have hno : ∀ a, b.nextAction t.memory t.session t.now t.polls t.pollCount t.writeConsistencyContext ≠ (.ready, a) :=
      fun a he => hready ⟨a, he⟩
    have hrun : b.run (b.actionCalls t) = b := by
      simp only [actionCalls]
      rw [if_neg fun e => hno _ (Prod.ext e rfl)]
      rfl
    rw [hrun]
    exact ⟨hf, .idle hno rfl⟩

/-! ## The debt -/

/-- The elements of some works still to be sent. -/
def weight (ws : List StoreForwardWorkSlot) : Nat := (ws.map (·.remaining.toNat)).sum

theorem weight_split (j : Nat) (ws : List StoreForwardWorkSlot) : weight (ws.take j) + weight (ws.drop j) = weight ws := by
  rw [weight, weight, weight, ← List.sum_append, ← List.map_append, List.take_append_drop]

@[simp] theorem weight_cons (s : StoreForwardWorkSlot) (ws : List StoreForwardWorkSlot) :
    weight (s :: ws) = s.remaining.toNat + weight ws := by simp [weight]

/-- A poll may come before the next forward. -/
def pollOwed (b : StoreForwardBridge) : Nat :=
  if b.pollState.forwardsSincePoll < b.pollPlanner.options.maxConsecutiveForwards then 0 else 1

/-- What the first `k` works in the queue still cost: two turns an element, and one more while a
poll may come first. -/
def debt (b : StoreForwardBridge) (k : Nat) : Nat := if k = 0 then 0 else 2 * weight (b.queue.take k) + b.pollOwed

theorem debt_of_pos {k : Nat} (hk : 0 < k) : b.debt k = 2 * weight (b.queue.take k) + b.pollOwed :=
  if_neg (Nat.ne_of_gt hk)

theorem debt_le (b : StoreForwardBridge) (k : Nat) : b.debt k ≤ 2 * weight (b.queue.take k) + 1 := by
  unfold debt pollOwed
  split_ifs <;> omega

/-- Works discarded cost nothing. -/
theorem debt_discard (hq : b'.queue = b.queue.drop j) (hpoll : b'.pollState = b.pollState)
    (hplanner : b'.pollPlanner = b.pollPlanner) (k : Nat) : b'.debt (k - j) ≤ b.debt k := by
  rcases Nat.eq_zero_or_pos (k - j) with hk | hk
  · simp [debt, hk]
  have htake : b'.queue.take (k - j) = (b.queue.take k).drop j := by rw [hq, List.drop_take]
  have howed : b'.pollOwed = b.pollOwed := by rw [pollOwed, pollOwed, hpoll, hplanner]
  have hsplit := weight_split j (b.queue.take k)
  rw [debt_of_pos hk, debt_of_pos (by omega), htake, howed]
  omega

/-- Nor do works that join behind. -/
theorem debt_join (hq : ∃ behind, b'.queue = b.queue ++ behind) (hpoll : b'.pollState = b.pollState)
    (hplanner : b'.pollPlanner = b.pollPlanner) {k : Nat} (hk : k ≤ b.queue.length) : b'.debt k = b.debt k := by
  obtain ⟨behind, hq⟩ := hq
  unfold debt pollOwed
  rw [hpoll, hplanner, hq, List.take_append_of_le_length hk]

/-- An action pays. -/
theorem debt_act (h : Acted b t b') (hplanner : b'.pollPlanner = b.pollPlanner)
    (hburst : b.pollPlanner.options.maxConsecutiveForwards ≠ 0)
    (hready : ∀ s rest, b.queue = s :: rest → ∃ a,
      b.nextAction t.memory t.session t.now t.polls t.pollCount t.writeConsistencyContext = (.ready, a))
    {k : Nat} (hk : k ≤ b.queue.length) :
    b'.debt (k - (b.queue.length - b'.queue.length)) ≤ b.debt k - 1 := by
  rcases Nat.eq_zero_or_pos k with rfl | hpos
  · simp [debt]
  obtain ⟨s, rest, hq⟩ := List.exists_cons_of_length_pos (l := b.queue) (by omega)
  have hbefore := debt_of_pos (b := b) hpos
  cases h with
  | idle hno =>
    obtain ⟨a, ha⟩ := hready s rest hq
    exact absurd ha (hno a)
  | poll hover hreset hsame =>
    have hmax : (0 : UInt16) < b.pollPlanner.options.maxConsecutiveForwards :=
      UInt16.lt_iff_toNat_lt.2 (toNat_pos.2 hburst)
    have howed : b.pollOwed = 1 := if_neg (hover (by rw [hq]; simp))
    have howed' : b'.pollOwed = 0 := by rw [pollOwed, hplanner, hreset, if_pos hmax]
    rw [hsame, Nat.sub_self, Nat.sub_zero, debt_of_pos hpos, hsame, hbefore, howed, howed']
    omega
  | write s' rest' hs quantity h0 hle hnext =>
    obtain ⟨rfl, rfl⟩ : s = s' ∧ rest = rest' := by simpa using hq.symm.trans hs
    obtain ⟨j, rfl⟩ : ∃ j, k = j + 1 := ⟨k - 1, by omega⟩
    have hafter := b'.debt_le (j + 1 - (b.queue.length - b'.queue.length))
    rw [hq, List.take_succ_cons, weight_cons] at hbefore
    rcases hnext with hnext | hnext
    · have hlost : b.queue.length - b'.queue.length = 1 := by simp [hq, hnext]
      rw [hlost, hnext, Nat.add_sub_cancel] at hafter
      rw [hlost, Nat.add_sub_cancel]
      omega
    · have hlost : b.queue.length - b'.queue.length = 0 := by simp [hq, hnext]
      have hsent : (s.advance quantity).remaining.toNat = s.remaining.toNat - quantity.toNat :=
        toNat_sub_of_le hle
      rw [hlost, hnext, Nat.sub_zero, List.take_succ_cons, weight_cons, hsent] at hafter
      rw [hlost, Nat.sub_zero]
      omega

/-! ## A turn -/

/-- Who joins, joins behind. -/
theorem Step.joins {c : Call} {r : Res} (hs : Step b c r b') {w : Ingress} {session : SessionStateView} {ctx : Ptr}
    (hop : c.op = .admitWork w session ctx) :
    b'.inFlight = b.inFlight ∧ b'.pollState = b.pollState ∧ ∃ behind, b'.queue = b.queue ++ behind := by
  cases hs with
  | refused => exact ⟨rfl, rfl, [], by simp⟩
  | admitted _ _ _ _ _ _ _ hqueue => exact ⟨rfl, rfl, _, hqueue⟩
  | dropped hdrop => simp [hop] at hdrop
  | reset hreset => simp [hop] at hreset
  | _ => simp at hop

theorem run_arrivalCalls (h : b.Coherent) (t : ServiceTurn) :
    (b.run (arrivalCalls t)).inFlight = b.inFlight ∧ (b.run (arrivalCalls t)).pollState = b.pollState ∧
    ∃ behind, (b.run (arrivalCalls t)).queue = b.queue ++ behind := by
  unfold arrivalCalls
  induction t.arrivals generalizing b with
  | nil => exact ⟨rfl, rfl, [], by simp [run]⟩
  | cons w arrivals ih =>
    have hstep := exec_step h ⟨t.memory, .admitWork w.1 t.session w.2⟩
    obtain ⟨hf, hpoll, behind, hq⟩ := hstep.joins rfl
    obtain ⟨hf', hpoll', behind', hq'⟩ := ih (hstep.coherent h)
    refine ⟨hf'.trans hf, hpoll'.trans hpoll, behind ++ behind', ?_⟩
    rw [List.map_cons, run, Machine.final_cons]
    rw [run, hq, List.append_assoc] at hq'
    exact hq'

/-- **The work of a turn** lowers the debt of the first `k` works. -/
theorem run_workCalls (h : b.Coherent) (hf : b.inFlight = false)
    (hburst : b.pollPlanner.options.maxConsecutiveForwards ≠ 0) (ht : t.Serviceable) {k : Nat} (hk : k ≤ b.queue.length) :
    (b.run (b.workCalls t)).inFlight = false ∧ (b.run (b.workCalls t)).queue.length ≤ b.queue.length ∧
    (b.run (b.workCalls t)).debt (k - (b.queue.length - (b.run (b.workCalls t)).queue.length)) ≤ b.debt k - 1 := by
  obtain ⟨hdone, _⟩ := run_discardCalls (t := t) h hf _ (fuel_enough b)
  have hrun : b.run (b.workCalls t) = (b.run (discardCalls t (b.workQueue.size.toNat + 1) b)).run
      ((b.run (discardCalls t (b.workQueue.size.toNat + 1) b)).actionCalls t) := Machine.final_append exec _ _ _
  rw [hrun]
  clear hrun
  generalize b.run (discardCalls t (b.workQueue.size.toNat + 1) b) = d at hdone ⊢
  -- the works discarded stood in front
  obtain ⟨j, hj, hdrop⟩ : ∃ j, j ≤ b.queue.length ∧ d.queue = b.queue.drop j :=
    ⟨_, List.findIdx_le_length, hdone.queue.trans List.dropWhile_eq_drop_findIdx_not⟩
  have hready : ∀ s rest, d.queue = s :: rest → ∃ a,
      d.nextAction t.memory t.session t.now t.polls t.pollCount t.writeConsistencyContext = (.ready, a) := by
    intro s rest hs
    exact hdone.coherent.ready hdone.idle hdone.front_current (Or.inl (by rw [hs]; simp)) ht
  have hlength : d.queue.length = b.queue.length - j := by rw [hdrop, List.length_drop]
  obtain ⟨hidle, hacted⟩ := run_actionCalls (t := t) hdone.coherent hdone.idle ht.outcome
  have hpaid := debt_act hacted (run_planners hdone.coherent (d.actionCalls t)).2 (by rwa [hdone.pollPlanner]) hready
    (k := k - j) (by omega)
  have hfree := debt_discard hdrop hdone.pollState hdone.pollPlanner k
  have hshorter := hacted.length_le
  have hleft : k - (b.queue.length - (d.run (d.actionCalls t)).queue.length) =
      k - j - (d.queue.length - (d.run (d.actionCalls t)).queue.length) := by omega
  refine ⟨hidle, by omega, ?_⟩
  rw [hleft]
  omega

/-! ## What the log says of a turn -/

/-- Calls that admit no work. -/
def Admitless (c : Call) : Prop := ∀ w session ctx, c.op ≠ .admitWork w session ctx

theorem admittedInstance_admitless {c : Call} (h : Admitless c) (r : Res) : admittedInstance c r = none := by
  obtain ⟨mem, op⟩ := c
  cases r <;> cases op <;> first | rfl | exact absurd rfl (h _ _ _)

theorem workCalls_admitless (b : StoreForwardBridge) (t : ServiceTurn) : ∀ c ∈ b.workCalls t, Admitless c := by
  have hdiscard : ∀ fuel (b : StoreForwardBridge), ∀ c ∈ discardCalls t fuel b, Admitless c := by
    intro fuel
    induction fuel with
    | zero => simp [discardCalls]
    | succ fuel ih =>
      intro b c hc
      rcases List.mem_cons.1 hc with rfl | hc
      · simp [Admitless]
      · split at hc
        · exact ih _ c hc
        · cases hc
  intro c hc
  rcases List.mem_append.1 hc with hc | hc
  · exact hdiscard _ _ c hc
  · rcases List.mem_cons.1 hc with rfl | hc
    · simp [Admitless]
    · split at hc
      · rcases List.mem_cons.1 hc with rfl | hc
        · simp [Admitless]
        · split at hc
          · obtain rfl := List.mem_singleton.1 hc
            simp [Admitless]
          · cases hc
      · cases hc

theorem history_append (b : StoreForwardBridge) (calls more : List Call) :
    b.history (calls ++ more) = b.history calls ++ (b.run calls).history more := Machine.trace_append exec b calls more

/-- Instances only ever join. -/
theorem log_extends (b : StoreForwardBridge) (calls more : List Call) :
    (b.log (calls ++ more)).instances.map Instance.origin = (b.log calls).instances.map Instance.origin ++
      ((b.run calls).history more).flatMap fun e => (admittedInstance e.input e.output).toList := by
  rw [log_admissions, log_admissions, history_append, List.flatMap_append]

theorem log_admitless (b : StoreForwardBridge) (calls : List Call) {more : List Call} (h : ∀ c ∈ more, Admitless c) :
    (b.log (calls ++ more)).instances.length = (b.log calls).instances.length := by
  have hnone : (((b.run calls).history more).flatMap fun e => (admittedInstance e.input e.output).toList) = [] := by
    rw [List.flatMap_eq_nil_iff]
    intro e he
    rw [admittedInstance_admitless (h _ (Machine.input_mem exec he))]
    rfl
  have hlen := congrArg List.length (b.log_extends calls more)
  rwa [hnone, List.append_nil, List.length_map, List.length_map] at hlen

theorem log_arrivals (hb : b.Deployed) (calls : List Call) (t : ServiceTurn) :
    (b.log (calls ++ arrivalCalls t)).released.length = (b.log calls).released.length := by
  have hnone : (((b.run calls).history (arrivalCalls t)).flatMap fun e => releases e.before e.output) = [] := by
    rw [List.flatMap_eq_nil_iff]
    intro e he
    obtain ⟨_, hout⟩ := Machine.inv_trace exec (P := fun _ => True) (fun _ _ _ => trivial) trivial _ e he
    obtain ⟨w, _, hw⟩ := List.mem_map.1 (Machine.input_mem exec he)
    rw [hout, ← hw]
    rfl
  have hlen := congrArg List.length (log_releases hb (calls ++ arrivalCalls t))
  rw [history_append, List.flatMap_append, hnone, List.append_nil, ← log_releases hb calls] at hlen
  rwa [List.length_map, List.length_map] at hlen

/-- What was released and what waits is what came. -/
theorem log_balance (hb : b.Deployed) (calls : List Call) :
    (b.log calls).released.length + (b.run calls).queue.length = (b.log calls).instances.length := by
  have htracks := log_tracks hb calls
  rw [Log.instances, List.length_append, List.length_map, htracks.queued.length_eq]

/-! ## The loop -/

theorem Coherent.debt_zero (h : b.Coherent) (hf : b.inFlight = false) {k : Nat} (hk : k ≤ b.queue.length)
    (hzero : b.debt k = 0) : k = 0 := by
  by_contra hne
  obtain ⟨s, rest, hq⟩ := List.exists_cons_of_length_pos (l := b.queue) (by omega)
  obtain ⟨j, rfl⟩ := Nat.exists_eq_succ_of_ne_zero hne
  have hpos := toNat_pos.2 (h.unfinished hf (s := s) (by rw [hq]; exact List.mem_cons_self))
  rw [debt_of_pos (Nat.pos_of_ne_zero hne), hq, List.take_succ_cons, weight_cons] at hzero
  omega

/-- How many of the first `n` instances wait yet. -/
def ahead (b : StoreForwardBridge) (calls : List Call) (n : Nat) : Nat := n - (b.log calls).released.length

theorem ahead_le (hb : b.Deployed) {calls : List Call} {n : Nat} (hn : n ≤ (b.log calls).instances.length) :
    b.ahead calls n ≤ (b.run calls).queue.length := by
  have hbalance := log_balance hb calls
  unfold ahead
  omega

/-- **A turn** lowers the debt of the instances that came before it, whoever arrives. -/
theorem serviceTurn_pays (hb : b.Deployed) (hburst : b.pollPlanner.options.maxConsecutiveForwards ≠ 0) {calls : List Call}
    (hidle : (b.run calls).inFlight = false) {n : Nat} (hn : n ≤ (b.log calls).instances.length) (ht : t.Serviceable) :
    (b.run (b.serviceTurn calls t).2).inFlight = false ∧
    n ≤ (b.log (b.serviceTurn calls t).2).instances.length ∧
    (b.run (b.serviceTurn calls t).2).debt (b.ahead (b.serviceTurn calls t).2 n) ≤
      (b.run calls).debt (b.ahead calls n) - 1 := by
  have hcoherent := run_coherent hb.coherent calls
  obtain ⟨hf, hpoll, hjoin⟩ := run_arrivalCalls hcoherent t
  have harrived : b.run (calls ++ arrivalCalls t) = (b.run calls).run (arrivalCalls t) := Machine.final_append exec _ _ _
  rw [← harrived] at hf hpoll hjoin
  have hturn : (b.serviceTurn calls t).2 = calls ++ arrivalCalls t ++ (b.run (calls ++ arrivalCalls t)).workCalls t := by
    rw [harrived, List.append_assoc]
    rfl
  rw [hturn]
  have hreleased := log_arrivals hb calls t
  have hbefore := log_balance hb calls
  have hplanner := (run_planners hb.coherent calls).2
  have hplanner' := (run_planners hb.coherent (calls ++ arrivalCalls t)).2
  have hjoined := debt_join hjoin hpoll (hplanner'.trans hplanner.symm) (ahead_le hb hn)
  have hn' : n ≤ (b.log (calls ++ arrivalCalls t)).instances.length := by
    have hlen := congrArg List.length (b.log_extends calls (arrivalCalls t))
    rw [List.length_append, List.length_map, List.length_map] at hlen
    omega
  have hahead : b.ahead (calls ++ arrivalCalls t) n = b.ahead calls n := by rw [ahead, ahead, hreleased]
  rw [hidle] at hf
  rw [← hahead] at hjoined ⊢
  -- the rest is about what has arrived
  generalize calls ++ arrivalCalls t = calls at *
  have hle := ahead_le hb hn'
  obtain ⟨hdone, hfewer, hpaid⟩ := run_workCalls (run_coherent hb.coherent calls) hf (by rwa [hplanner']) ht hle
  have hrun : b.run (calls ++ (b.run calls).workCalls t) = (b.run calls).run ((b.run calls).workCalls t) :=
    Machine.final_append exec _ _ _
  rw [← hrun] at hdone hfewer hpaid
  have hsame := b.log_admitless calls (workCalls_admitless (b.run calls) t)
  have hafter := log_balance hb (calls ++ (b.run calls).workCalls t)
  have hbefore := log_balance hb calls
  have hleft : b.ahead (calls ++ (b.run calls).workCalls t) n = b.ahead calls n -
      ((b.run calls).queue.length - (b.run (calls ++ (b.run calls).workCalls t)).queue.length) := by
    unfold ahead
    omega
  rw [hleft, ← hjoined]
  exact ⟨hdone, by omega, hpaid⟩

/-- The calls `more` of a loop after `calls`. -/
structure Looping (b : StoreForwardBridge) (calls : List Call) (ts : List ServiceTurn) (more : List Call) : Prop where
  idle : (b.run more).inFlight = false
  extends_calls : calls <+: more
  joined : (b.log calls).instances.length ≤ (b.log more).instances.length
  closed : (∀ t ∈ ts, t.arrivals = []) → (b.log more).instances.length = (b.log calls).instances.length

theorem Looping.turn (hb : b.Deployed) (hburst : b.pollPlanner.options.maxConsecutiveForwards ≠ 0)
    {calls more : List Call} {ts : List ServiceTurn} (ht : t.Serviceable) (hmem : t ∈ ts) (h : Looping b calls ts more) :
    Looping b calls ts (b.serviceTurn more t).2 ∧
    (b.run (b.serviceTurn more t).2).debt (b.ahead (b.serviceTurn more t).2 (b.log calls).instances.length) ≤
      (b.run more).debt (b.ahead more (b.log calls).instances.length) - 1 := by
  obtain ⟨hidle, hjoined, hpaid⟩ := serviceTurn_pays hb hburst h.idle h.joined ht
  refine ⟨⟨hidle, h.extends_calls.trans (List.prefix_append _ _), hjoined, fun hnone => ?_⟩, hpaid⟩
  rw [← h.closed hnone]
  refine b.log_admitless more fun c hc => ?_
  rw [serviceCalls, arrivalCalls, hnone t hmem] at hc
  exact workCalls_admitless _ t c hc

/-- **Every work that waits is served in bounded time, whatever arrives behind it.** After two turns
of the loop for every element still to be sent, and one more, all works admitted before the loop
have been released; and if nothing arrived the queue is empty. -/
theorem waiting_works_served (hb : b.Deployed) (hburst : b.pollPlanner.options.maxConsecutiveForwards ≠ 0)
    {calls : List Call} (hidle : (b.run calls).inFlight = false) {ts : List ServiceTurn} (hts : ∀ t ∈ ts, t.Serviceable)
    (hlong : 2 * weight (b.run calls).queue < ts.length) :
    (b.run (b.service calls ts)).inFlight = false ∧
    (b.log calls).instances.map Instance.origin <+:
      (b.log (b.service calls ts)).released.map (fun x => x.1.origin) ∧
    ((∀ t ∈ ts, t.arrivals = []) → (b.run (b.service calls ts)).queue = []) := by
  obtain ⟨hdone, hdebt⟩ := Machine.exhausts b.serviceTurn (P := Looping b calls ts) (Q := fun t => t ∈ ts)
    (fun more => (b.run more).debt (b.ahead more (b.log calls).instances.length))
    (fun _ t hmem h => h.turn hb hburst (hts t hmem) hmem)
    ⟨hidle, List.prefix_refl _, Nat.le_refl _, fun _ => rfl⟩ (fun _ ht => ht)
  change Looping b calls ts (b.service calls ts) at hdone
  change (b.run (b.service calls ts)).debt (b.ahead (b.service calls ts) (b.log calls).instances.length) ≤ _ at hdebt
  have hstart := (b.run calls).debt_le (b.ahead calls (b.log calls).instances.length)
  have hsplit := weight_split (b.ahead calls (b.log calls).instances.length) (b.run calls).queue
  have hall : b.ahead (b.service calls ts) (b.log calls).instances.length = 0 :=
    (run_coherent hb.coherent _).debt_zero hdone.idle (ahead_le hb hdone.joined) (by omega)
  unfold ahead at hall
  refine ⟨hdone.idle, ?_, fun hnone => ?_⟩
  · obtain ⟨more, hmore⟩ := hdone.extends_calls
    have hcame : (b.log calls).instances.map Instance.origin <+:
        (b.log (b.service calls ts)).instances.map Instance.origin := by
      rw [← hmore, log_extends]
      exact List.prefix_append _ _
    have hreleased : (b.log (b.service calls ts)).released.map (fun x => x.1.origin) <+:
        (b.log (b.service calls ts)).instances.map Instance.origin := by
      rw [Log.instances, List.map_append, List.map_map]
      exact List.prefix_append _ _
    refine List.prefix_of_prefix_length_le hcame hreleased ?_
    rw [List.length_map, List.length_map]
    exact Nat.sub_eq_zero_iff_le.1 hall
  · have hbalance := log_balance hb (b.service calls ts)
    have hclosed := hdone.closed hnone
    exact List.length_eq_zero_iff.1 (by omega)

theorem loopTurn_serviceable : loopTurn.Serviceable :=
  ⟨Or.inr rfl, fun _ _ _ _ => ⟨rfl, rfl⟩, by decide⟩

/-- Five elements wait, so eleven turns are enough. -/
theorem waiting_works_served_test :
    (testBridge.log (testCalls 0)).instances.map Instance.origin <+:
      (testBridge.log (testBridge.service (testCalls 0) (List.replicate 11 loopTurn))).released.map (fun x => x.1.origin) ∧
    (testBridge.log (testCalls 0)).instances.length = 2 :=
  ⟨(waiting_works_served testBridge_deployed (by decide) (by decide +kernel)
      (fun _ ht => (List.mem_replicate.1 ht).2 ▸ loopTurn_serviceable) (by decide +kernel)).2.1, by decide +kernel⟩

end StoreForwardBridge

end ModbusRTUBridge
