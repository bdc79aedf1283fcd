import ModbusRTUBridge.Steps
/-!
# Bounded starvation

A turn is one `select` that returned `Selected`, with what it looked at. `Turns` is a run of
the planner, each selection committed before the next; `Fair` is what its policy promises of
the sequence of selections, in both directions. The admitted and consumed actions of the facade
between two resets are such a run.
-/

namespace ModbusRTUBridge

/-- One committed selection and the inputs of its `select`. -/
structure Turn where
  now : UInt32
  forwardReady : Bool
  polls : Storage PollCandidate
  selection : PollSelection

/-- The turn selected candidate `i`. -/
def Turn.Polls (t : Turn) (i : UInt16) : Prop := t.selection.kind = .poll ∧ t.selection.pollIndex = i

/-- Some candidate was due at the turn. -/
def Turn.SomeDue (t : Turn) (n : UInt16) : Prop := ∃ i : UInt16, i.toNat < n.toNat ∧ PollPlanner.isDue t.now t.polls i = true

/-- Forwards committed since the last poll, `f` of them before the first turn. -/
def burst (f : Nat) (ts : List Turn) : Nat := ts.foldl (fun k t => if t.selection.kind = .poll then 0 else k + 1) f

/-- **The promise**, for `n` candidates and at most `M` forwards in a row. -/
structure Fair (M n : UInt16) (f : Nat) (ts : List Turn) : Prop where
  /-- A candidate that is always due is polled within `n * (M + 1)` turns. -/
  polled : n.toNat * (M.toNat + 1) ≤ ts.length → ∀ i : UInt16, i.toNat < n.toNat →
    (∀ t ∈ ts.take (n.toNat * (M.toNat + 1)), PollPlanner.isDue t.now t.polls i = true) →
    ∃ t ∈ ts.take (n.toNat * (M.toNat + 1)), t.Polls i
  /-- A forward that passes over a due candidate is within the burst. -/
  bounded : ∀ pre t post, ts = pre ++ t :: post → t.SomeDue n → t.selection.kind = .forwardWrite → burst f pre < M.toNat
  /-- A ready forward is not passed over twice. -/
  alternates : 1 ≤ M.toNat → ∀ pre t t' post, ts = pre ++ t :: t' :: post → t.selection.kind = .poll →
    t'.forwardReady = true → t'.selection.kind ≠ .poll

namespace PollPlanner

open RoundRobin (after)

variable {p : PollPlanner} {n : UInt16} {state : PollPlannerState} {t : Turn} {ts : List Turn}

/-- A run of the planner: each turn is what `select` returns in the state the commits before it
left. -/
def Turns (p : PollPlanner) (n : UInt16) : PollPlannerState → List Turn → Prop
  | _, [] => True
  | state, t :: ts => p.select t.now t.forwardReady t.polls n state = (.selected, t.selection) ∧
      Turns p n (commit t.selection n t.now state).2 ts

/-- The state after the turns' commits. -/
def afterTurns (n : UInt16) (state : PollPlannerState) (ts : List Turn) : PollPlannerState :=
  ts.foldl (fun state t => (commit t.selection n t.now state).2) state

theorem turns_append {ts' : List Turn} : Turns p n state (ts ++ ts') ↔
    Turns p n state ts ∧ Turns p n (afterTurns n state ts) ts' := by
  induction ts generalizing state with
  | nil => simp [Turns, afterTurns]
  | cons t ts ih => simp only [List.cons_append, Turns, ih, and_assoc]; rfl

theorem turns_take (h : Turns p n state ts) (k : Nat) : Turns p n state (ts.take k) := by
  rw [← List.take_append_drop k ts] at h
  exact (turns_append.1 h).1

/-! ## One turn -/

theorem commit_forward_state (n : UInt16) (now : UInt32) (state : PollPlannerState) :
    (commit (forwardSelection n) n now state).2 =
      if state.forwardsSincePoll ≠ 0xFFFF then { state with forwardsSincePoll := state.forwardsSincePoll + 1 } else state := by
  simp [commit, PollSelection.fromCandidateSet]

theorem commit_poll_state {i : UInt16} (hi : i.toNat < n.toNat) (now : UInt32) (state : PollPlannerState) :
    (commit (.fromCandidateSet .poll i n) n now state).2 = ⟨if i + 1 = n then 0 else i + 1, 0, now, true⟩ := by
  rw [commit_bound (toNat_pos.1 (Nat.zero_lt_of_lt hi)), if_pos ⟨rfl, UInt16.lt_iff_toNat_lt.2 hi⟩]

/-- The counter after a forward: saturated, it stays. -/
theorem toNat_forwards (n : UInt16) (now : UInt32) (state : PollPlannerState) :
    (commit (forwardSelection n) n now state).2.forwardsSincePoll.toNat = min 65535 (state.forwardsSincePoll.toNat + 1) := by
  have hlt := state.forwardsSincePoll.toNat_lt
  rw [commit_forward_state]
  split
  · rename_i hne
    have hnext := toNat_succ hne
    have hlt' := (state.forwardsSincePoll + 1).toNat_lt
    show (state.forwardsSincePoll + 1).toNat = _
    omega
  · rename_i he
    rw [Decidable.not_not.1 he]
    decide

theorem scanStart_forward (n : UInt16) (now : UInt32) (state : PollPlannerState) :
    scanStart n (commit (forwardSelection n) n now state).2 = scanStart n state := by
  rw [commit_forward_state]
  split <;> rfl

theorem scanStart_poll {i : UInt16} (hi : i.toNat < n.toNat) (now : UInt32) (state : PollPlannerState) :
    scanStart n (commit (.fromCandidateSet .poll i n) n now state).2 = after n.toNat i.toNat := by
  have hafter := toNat_after hi
  have hlt := RoundRobin.after_lt hi
  rw [commit_poll_state hi]
  unfold scanStart
  rw [if_pos (UInt16.lt_iff_toNat_lt.2 (by rw [hafter]; exact hlt))]
  exact hafter

/-- The counter is the burst, up to saturation. -/
theorem forwards_eq_burst (h : Turns p n state ts) :
    (afterTurns n state ts).forwardsSincePoll.toNat = min 65535 (burst state.forwardsSincePoll.toNat ts) := by
  have hgen : ∀ f : Nat, state.forwardsSincePoll.toNat = min 65535 f →
      (afterTurns n state ts).forwardsSincePoll.toNat = min 65535 (burst f ts) := by
    induction ts generalizing state with
    | nil => intro f hf; exact hf
    | cons t ts ih =>
      intro f hf
      obtain ⟨hsel, hrest⟩ := h
      refine ih hrest (if t.selection.kind = .poll then 0 else f + 1) ?_
      rcases (select_selected hsel).2 with ⟨he, _⟩ | ⟨i, he, hfirst⟩
      · rw [he, toNat_forwards, if_neg (by simp [PollSelection.fromCandidateSet])]
        omega
      · rw [he, commit_poll_state hfirst.lt]
        rfl
  exact hgen _ (by have := state.forwardsSincePoll.toNat_lt; omega)

/-! ## The three bounds -/

/-- The turn as round robin sees it. -/
def asTurn (t : Turn) : RoundRobin.Turn :=
  if t.selection.kind = .poll then .serve t.selection.pollIndex.toNat else .interrupt

/-- While candidate `i` is due, the planner's turns are legal round-robin turns. -/
theorem legalRun {i : UInt16} (hi : i.toNat < n.toNat) (h : Turns p n state ts)
    (hdue : ∀ t ∈ ts, isDue t.now t.polls i = true) :
    RoundRobin.LegalRun n.toNat p.options.maxConsecutiveForwards.toNat i.toNat
      ⟨scanStart n state, state.forwardsSincePoll.toNat⟩ (ts.map asTurn) := by
  induction ts generalizing state with
  | nil => trivial
  | cons t ts ih =>
    obtain ⟨hsel, hrest⟩ := h
    have hd := hdue t List.mem_cons_self
    have ih' := ih hrest fun t ht => hdue t (List.mem_cons_of_mem _ ht)
    obtain ⟨hstore, _⟩ := select_selected hsel
    rcases select_spec p t.now state hstore t.forwardReady with ⟨j, hfirst, heq⟩ | ⟨hnone, _⟩
    · rw [heq] at hsel
      simp only [Prod.mk.injEq, true_and] at hsel
      rw [List.map_cons]
      split at hsel
      · rename_i hf
        have hturn : asTurn t = .interrupt := by unfold asTurn; rw [← hsel]; rfl
        have hused := UInt16.lt_iff_toNat_lt.1 hf.2
        have hM := p.options.maxConsecutiveForwards.toNat_lt
        rw [hturn]
        refine ⟨hused, ?_⟩
        rw [← hsel, scanStart_forward, toNat_forwards, Nat.min_eq_right (by omega)] at ih'
        exact ih'
      · have hturn : asTurn t = .serve j.toNat := by unfold asTurn; rw [← hsel]; rfl
        rw [hturn]
        refine ⟨⟨hfirst.lt, hfirst.first i hi hd⟩, ?_⟩
        rw [← hsel, scanStart_poll hfirst.lt, commit_poll_state hfirst.lt] at ih'
        exact ih'
    · rw [hnone i hi] at hd; cases hd

/-- **The planner is fair**, whatever state it starts in. -/
theorem turns_fair (hn : n ≠ 0) (h : Turns p n state ts) :
    Fair p.options.maxConsecutiveForwards n state.forwardsSincePoll.toNat ts where
  polled hlen i hi hdue := by
    have hrun := legalRun hi (turns_take h _) hdue
    have hserved := RoundRobin.served_within (scanStart_lt hn state) hi hrun
      (RoundRobin.wait_le (scanStart_lt hn state) hi) (by simp [hlen])
    obtain ⟨t, ht, hturn⟩ := List.mem_map.1 (List.mem_of_mem_take hserved)
    refine ⟨t, ht, ?_⟩
    unfold asTurn at hturn
    split at hturn
    · rename_i hk
      exact ⟨hk, UInt16.toNat_inj.1 (RoundRobin.Turn.serve.inj hturn)⟩
    · cases hturn
  bounded pre t post hts hdue hk := by
    subst hts
    obtain ⟨hpre, hsel, _⟩ := turns_append.1 h
    have hburst := forwards_eq_burst hpre
    obtain ⟨i, hi, hd⟩ := hdue
    obtain ⟨hstore, _⟩ := select_selected hsel
    rcases select_spec p t.now (afterTurns n state pre) hstore t.forwardReady with
      ⟨j, _, heq⟩ | ⟨hnone, _⟩
    · rw [heq] at hsel
      simp only [Prod.mk.injEq, true_and] at hsel
      split at hsel
      · rename_i hf
        have hlt := UInt16.lt_iff_toNat_lt.1 hf.2
        have hM := p.options.maxConsecutiveForwards.toNat_lt
        omega
      · rw [← hsel] at hk; cases hk
    · rw [hnone i hi] at hd; cases hd
  alternates hM pre t t' post hts hk hready := by
    subst hts
    obtain ⟨_, hsel, hsel', _⟩ := turns_append.1 h
    have hzero : (commit t.selection n t.now (afterTurns n state pre)).2.forwardsSincePoll = 0 := by
      rcases (select_selected hsel).2 with ⟨he, _⟩ | ⟨i, he, hfirst⟩
      · rw [he] at hk; cases hk
      · rw [he, commit_poll_state hfirst.lt]
    obtain ⟨hstore, _⟩ := select_selected hsel'
    have hlt : (commit t.selection n t.now (afterTurns n state pre)).2.forwardsSincePoll <
        p.options.maxConsecutiveForwards := by
      rw [hzero, UInt16.lt_iff_toNat_lt]
      exact hM
    rcases select_spec p t'.now (commit t.selection n t.now (afterTurns n state pre)).2 hstore
      t'.forwardReady with ⟨j, _, heq⟩ | ⟨_, heq⟩
    · rw [heq, if_pos ⟨hready, hlt⟩] at hsel'
      simp only [Prod.mk.injEq, true_and] at hsel'
      rw [← hsel']
      exact nofun
    · rw [heq, if_pos hready] at hsel'
      simp only [Prod.mk.injEq, true_and] at hsel'
      rw [← hsel']
      exact nofun

end PollPlanner

/-! ## The facade -/

namespace StoreForwardBridge

open PollPlanner (Turns turns_fair)

/-- The turn an accepted `admitAction` commits. -/
def turnOf (e : Machine.Event StoreForwardBridge Call Res) : Option Turn :=
  match e.input.op, e.output with
  | .admitAction a _ polls _, .actionAdmission status =>
    if status = .admitted ∨ status = .consumed then
      some ⟨a.selectedAt, e.before.queue.head?.isSome, polls, a.scheduling⟩
    else none
  | _, _ => none

/-- The poll count of an accepted `admitAction`. -/
def pollCountOf (e : Machine.Event StoreForwardBridge Call Res) : Option UInt16 :=
  match e.input.op, e.output with
  | .admitAction _ _ _ n, .actionAdmission status => if status = .admitted ∨ status = .consumed then some n else none
  | _, _ => none

/-- The turns of a run. -/
def turns (b : StoreForwardBridge) (calls : List Call) : List Turn := (b.history calls).filterMap turnOf

/-- No reset of the run succeeded, and every accepted action was chosen among `n` candidates. -/
def Undisturbed (b : StoreForwardBridge) (n : UInt16) (calls : List Call) : Prop :=
  ∀ e ∈ b.history calls, e.output ≠ .reset true ∧ ∀ n' ∈ pollCountOf e, n' = n

variable {b b' : StoreForwardBridge} {c : Call} {r : Res} {n : UInt16}

theorem turnOf_eq_none {e : Machine.Event StoreForwardBridge Call Res}
    (h : ∀ status, e.output = .actionAdmission status → status ≠ .admitted ∧ status ≠ .consumed) : turnOf e = none := by
  unfold turnOf
  split
  · rename_i status _ heq
    rw [if_neg (by simp [h _ heq])]
  · rfl

/-- Calls with no reset among them, and with `n` candidates for every action, disturb nothing. -/
theorem undisturbed_of_calls {calls : List Call} (h : ∀ c ∈ calls, match c.op with
      | .admitAction _ _ _ n' => n' = n
      | op => op ≠ .reset) : b.Undisturbed n calls := by
  intro e he
  have hc := h e.input (Machine.input_mem exec he)
  obtain ⟨_, hanswer⟩ := Machine.inv_trace exec (P := fun _ => True) (fun _ _ _ => trivial) trivial calls e he
  obtain ⟨before, ⟨mem, op⟩, r⟩ := e
  obtain rfl : r = (before.exec ⟨mem, op⟩).1 := hanswer
  cases op <;> simp_all [exec, pollCountOf]

/-- One call commits its turn, if it has one, to the planner's state. -/
theorem Step.turn (hs : Step b c r b') (hreset : r ≠ .reset true) (hn : ∀ n' ∈ pollCountOf ⟨b, c, r⟩, n' = n) :
    b'.pollPlanner = b.pollPlanner ∧
    match turnOf ⟨b, c, r⟩ with
    | none => b'.pollState = b.pollState
    | some t => b.pollPlanner.select t.now t.forwardReady t.polls n b.pollState = (.selected, t.selection) ∧
        b'.pollState = (PollPlanner.commit t.selection n t.now b.pollState).2 := by
  have hpoll : ∀ {a session polls n' i}, PollProposal b session a.selectedAt polls n' i a → n' = n →
      b.pollPlanner.select a.selectedAt b.queue.head?.isSome polls n b.pollState = (.selected, a.scheduling) ∧
      b.commitProposal a = (PollPlanner.commit a.scheduling n a.selectedAt b.pollState).2 := by
    rintro a session polls n' i hp rfl
    have hsched : a.scheduling = .fromCandidateSet .poll i n' := by rw [hp.shape]
    have hcount : a.pollCount = n' := by rw [hp.shape]
    exact ⟨hsched ▸ hp.selected, by rw [commitProposal, hcount]⟩
  cases hs with
  | refused hr =>
    refine ⟨rfl, ?_⟩
    have hnone : turnOf ⟨b, c, r⟩ = none := turnOf_eq_none fun status heq => by
      rw [show r = .actionAdmission status from heq] at hr
      simpa [Res.effective] using hr
    rw [hnone]
  | admitted =>
    refine ⟨rfl, ?_⟩
    rw [turnOf_eq_none (by simp)]
  | skipped hf hp hreq => exact ⟨rfl, hpoll hp (hn _ rfl)⟩
  | pollAdmitted hf hp hreq => exact ⟨rfl, hpoll hp (hn _ rfl)⟩
  | @writeAdmitted mem a session polls n' s rest hf hw hq =>
    have he : n' = n := hn _ rfl
    subst he
    have hsched : a.scheduling = PollPlanner.forwardSelection n' := by rw [hw.shape]
    have hcount : a.pollCount = n' := by rw [hw.shape]
    refine ⟨rfl, ?_, ?_⟩
    · show b.pollPlanner.select a.selectedAt b.queue.head?.isSome polls n' b.pollState = (.selected, a.scheduling)
      rw [hw.head, hsched]
      exact hw.selected
    · show b.commitProposal a = _
      rw [commitProposal, hcount]
  | pollCompleted => exact ⟨rfl, rfl⟩
  | settled => exact ⟨rfl, rfl⟩
  | stale => exact ⟨rfl, rfl⟩
  | dropped hop =>
    refine ⟨rfl, ?_⟩
    rw [turnOf_eq_none (by simp)]
    rfl
  | reset => exact absurd rfl hreset

/-- **The accepted actions of an undisturbed run are a run of the planner.** -/
theorem run_turns (h : b.Coherent) {calls : List Call} (hu : b.Undisturbed n calls) :
    Turns b.pollPlanner n b.pollState (b.turns calls) := by
  induction calls generalizing b with
  | nil => trivial
  | cons c calls ih =>
    have hstep := exec_step h c
    obtain ⟨hreset, hn⟩ := hu ⟨b, c, (b.exec c).1⟩ List.mem_cons_self
    obtain ⟨hplanner, hturn⟩ := hstep.turn hreset hn
    have hrest := ih (hstep.coherent h) fun e he => hu e (List.mem_cons_of_mem _ he)
    rw [hplanner] at hrest
    cases ht : turnOf ⟨b, c, (b.exec c).1⟩ with
    | none =>
      rw [ht] at hturn
      rw [hturn] at hrest
      rw [show b.turns (c :: calls) = (b.exec c).2.turns calls from List.filterMap_cons_none ht]
      exact hrest
    | some t =>
      rw [ht] at hturn
      rw [show b.turns (c :: calls) = t :: (b.exec c).2.turns calls from List.filterMap_cons_some ht]
      refine ⟨hturn.1, ?_⟩
      rw [← hturn.2]
      exact hrest

/-- **Bounded starvation**, of the planner in any state and of a reachable facade between two
resets. -/
theorem bounded_starvation (n : UInt16) (hn : n ≠ 0) :
    (∀ (p : PollPlanner) (state : PollPlannerState) (ts : List Turn), Turns p n state ts →
      Fair p.options.maxConsecutiveForwards n state.forwardsSincePoll.toNat ts) ∧
    (∀ b : StoreForwardBridge, b.Deployed → ∀ before calls, (b.run before).Undisturbed n calls →
      Fair b.pollPlanner.options.maxConsecutiveForwards n (b.run before).pollState.forwardsSincePoll.toNat
        ((b.run before).turns calls)) := by
  refine ⟨fun p state ts h => PollPlanner.turns_fair hn h, ?_⟩
  intro b hb before calls hu
  rw [← (run_planners hb.coherent before).2]
  exact turns_fair hn (run_turns (run_coherent hb.coherent before) hu)

/-- Candidates that are always due; only the first needs a request. -/
def testPolls : Storage PollCandidate :=
  some fun i =>
    { request := { operation := .readHoldingRegisters, endpointId := 10, quantity := 1, registerBuffer := ⟨9, 0⟩ }
      enabled := true, requiresDispatch := i == 0 }

/-- The burst is used up, and the second candidate is next. -/
def testTurns : List Turn :=
  [⟨6, true, testPolls, .fromCandidateSet .poll 1 2⟩, ⟨7, true, testPolls, .fromCandidateSet .forwardWrite 0 2⟩,
   ⟨8, true, testPolls, .fromCandidateSet .poll 0 2⟩, ⟨9, true, testPolls, .fromCandidateSet .forwardWrite 0 2⟩]

/-- `k` actions of `b` among the two candidates, each admitted and completed. -/
def testActions : Nat → StoreForwardBridge → List Call
  | 0, _ => []
  | k + 1, b =>
    let a := (b.nextAction testMemory testSession 0 testPolls 2 .null).2
    let calls : List Call :=
      [⟨testMemory, .admitAction a testSession testPolls 2⟩, ⟨testMemory, .complete a .applied testSession⟩]
    calls ++ testActions k (b.run calls)

theorem testActions_undisturbed (k : Nat) (b b' : StoreForwardBridge) : b.Undisturbed 2 (testActions k b') := by
  refine undisturbed_of_calls fun c hc => ?_
  induction k generalizing b' with
  | zero => cases hc
  | succ k ih =>
    rcases List.mem_append.1 hc with hc | hc
    · simp only [List.mem_cons, List.not_mem_nil, or_false] at hc
      rcases hc with rfl | rfl
      · exact rfl
      · exact nofun
    · exact ih _ hc

/-- Four turns of the planner from a state in the middle of things, and four of the facade of the
test after its first fragment. -/
theorem bounded_starvation_test :
    Fair 1 2 1 testTurns ∧ (∃ t ∈ testTurns.take 4, t.Polls 0) ∧
    let f := testBridge.run (testCalls 1)
    let ts := f.turns (testActions 4 f)
    Fair 1 2 1 ts ∧ (∃ t ∈ ts.take 4, t.Polls 1) ∧
    ts.map (·.selection.kind) = [.poll, .forwardWrite, .poll, .forwardWrite] := by
  obtain ⟨hplanner, hfacade⟩ := bounded_starvation 2 (by decide)
  have hturns := hplanner ⟨⟨1⟩⟩ ⟨1, 1, 5, true⟩ testTurns ⟨by decide, by decide, by decide, by decide, trivial⟩
  have hrun := hfacade testBridge testBridge_deployed (testCalls 1) (testActions 4 (testBridge.run (testCalls 1)))
    (testActions_undisturbed 4 _ _)
  exact ⟨hturns, hturns.polled (by decide) 0 (by decide) (by decide), hrun,
    hrun.polled (by decide +kernel) 1 (by decide) (by decide +kernel), by decide +kernel⟩

end StoreForwardBridge

end ModbusRTUBridge
