import Mathlib.Data.List.Induction
import ModbusRTUBridge.Accounting
import ModbusRTUBridge.Lib.Serial
/-!
# Actions are fresh

Every effective call moves the revision on, and an action carries the revision it was proposed
at. So what `admitAction` and `complete` accept is exactly the current proposal and the
retained action, and an action of an earlier revision is refused until the 32-bit counter has
gone all the way round.
-/

namespace ModbusRTUBridge

/-- The length of the revision cycle, `2^32 - 1`: every 32-bit value but zero. -/
def revisionCycle : Nat := 4294967295

theorem toNat_nextNonZeroSequence32 (x : UInt32) :
    (nextNonZeroSequence32 x).toNat = Serial.next revisionCycle x.toNat := by
  have h := x.toNat_lt
  have hadd : (x + 1).toNat = (x.toNat + 1) % 2 ^ 32 := UInt32.toNat_add x 1
  have hwrap : x + 1 = 0 ↔ x.toNat = revisionCycle := by
    rw [← UInt32.toNat_inj, hadd, UInt32.toNat_zero]
    unfold revisionCycle
    omega
  show (if x + 1 = 0 then 1 else x + 1).toNat = if x.toNat = revisionCycle then 1 else x.toNat + 1
  by_cases hx : x.toNat = revisionCycle
  · rw [if_pos (hwrap.2 hx), if_pos hx]
    rfl
  · rw [if_neg (mt hwrap.1 hx), if_neg hx, hadd]
    unfold revisionCycle at hx
    omega

theorem toNat_iterate_sequence (k : Nat) (x : UInt32) :
    (nextNonZeroSequence32^[k] x).toNat = (Serial.next revisionCycle)^[k] x.toNat := by
  induction k generalizing x with
  | zero => rfl
  | succ k ih => rw [Function.iterate_succ_apply, ih, toNat_nextNonZeroSequence32, Function.iterate_succ_apply]

/-- Two revisions of one walk fewer than a cycle apart differ. -/
theorem iterate_sequence_inj {x : UInt32} (hx : x ≠ 0) {i j : Nat} (hij : i < j) (hj : j < revisionCycle) :
    nextNonZeroSequence32^[i] x ≠ nextNonZeroSequence32^[j] x := by
  intro e
  have h := congrArg UInt32.toNat e
  rw [toNat_iterate_sequence, toNat_iterate_sequence] at h
  have hpos : 0 < x.toNat := Nat.pos_of_ne_zero fun e => hx (UInt32.toNat_inj.1 e)
  have hlt := x.toNat_lt
  exact Serial.iterate_next_inj hpos (by unfold revisionCycle; omega) hij (by omega) h

theorem iterate_sequence_ne_zero {x : UInt32} (hx : x ≠ 0) (k : Nat) : nextNonZeroSequence32^[k] x ≠ 0 := by
  cases k with
  | zero => exact hx
  | succ k => rw [Function.iterate_succ_apply']; exact nextNonZeroSequence32_ne_zero _

namespace StoreForwardBridge

variable {b b' : StoreForwardBridge} {c : Call} {r : Res}

/-! ## Revisions -/

theorem Step.revision (hs : Step b c r b') :
    b'.revision = if r.effective then nextNonZeroSequence32 b.revision else b.revision := by
  cases hs with
  | refused hr => simp [hr]
  | admitted hr => simp [Res.effective, hr]
  | _ => rfl

/-- What is in flight after a step was in flight before, or was proposed at the revision before. -/
theorem Step.inFlight (hs : Step b c r b') (hf : b'.inFlight = true) :
    (b.inFlight = true ∧ b'.inFlightAction = b.inFlightAction) ∨
    (r.effective = true ∧ b'.inFlightAction.proposalRevision = b.revision) := by
  cases hs with
  | refused => exact Or.inl ⟨hf, rfl⟩
  | admitted => exact Or.inl ⟨hf, rfl⟩
  | skipped hf' => exact absurd (hf'.symm.trans hf) (by decide)
  | @pollAdmitted _ a _ _ _ _ _ hp => exact Or.inr ⟨rfl, by show a.proposalRevision = _; rw [hp.shape]⟩
  | @writeAdmitted _ a _ _ _ _ _ _ hw => exact Or.inr ⟨rfl, by show a.proposalRevision = _; rw [hw.shape]⟩
  | dropped _ hf' => exact absurd (hf'.symm.trans hf) (by decide)
  | reset _ hf' => exact absurd (hf'.symm.trans hf) (by decide)
  | _ => exact absurd hf Bool.false_ne_true

/-- How many calls of a run took effect. -/
def effectiveCalls (b : StoreForwardBridge) (calls : List Call) : Nat :=
  (b.history calls).countP fun e => e.output.effective

/-- After `k` effective calls the revision has made `k` steps, and what is in flight was proposed
at one of those before the last. -/
theorem run_revision (h : b.Coherent) (hidle : b.inFlight = false) (calls : List Call) :
    (b.run calls).revision = nextNonZeroSequence32^[b.effectiveCalls calls] b.revision ∧
    ((b.run calls).inFlight = true → ∃ j < b.effectiveCalls calls,
      (b.run calls).inFlightAction.proposalRevision = nextNonZeroSequence32^[j] b.revision) := by
  have hsim := Machine.simulates_final exec (f := Machine.tally fun _ r => r.effective)
    (R := fun s k => s.Coherent ∧ s.revision = nextNonZeroSequence32^[k] b.revision ∧
      (s.inFlight = true → ∃ j < k, s.inFlightAction.proposalRevision = nextNonZeroSequence32^[j] b.revision))
    (fun s k c ⟨hs, hrev, hfl⟩ => by
      have hstep := exec_step hs c
      have hrev' := hstep.revision
      refine ⟨hstep.coherent hs, ?_, ?_⟩
      · rw [hrev']
        unfold Machine.tally
        split
        · rw [hrev, Function.iterate_succ_apply']
        · exact hrev
      · intro hf
        have hle : k ≤ Machine.tally (fun _ r => r.effective) k c (s.exec c).1 := by unfold Machine.tally; split <;> omega
        rcases hstep.inFlight hf with ⟨hf', heq⟩ | ⟨heff, heq⟩
        · obtain ⟨j, hj, hp⟩ := hfl hf'
          exact ⟨j, by omega, heq ▸ hp⟩
        · exact ⟨k, by simp [Machine.tally, heff], heq.trans hrev⟩)
    (g := 0) ⟨h, rfl, fun hf => absurd (hidle.symm.trans hf) (by decide)⟩ calls
  rw [Machine.observe_tally, Nat.zero_add] at hsim
  exact hsim.2

/-- Revisions are never zero in a run of a deployed facade. -/
theorem Deployed.revision_one (h : b.Deployed) : b.revision = 1 ∧ b.inFlight = false := by
  obtain ⟨_, _, _, _, _, _, rfl⟩ := h.constructed
  exact ⟨rfl, rfl⟩

theorem effectiveCalls_append (b : StoreForwardBridge) (calls calls' : List Call) :
    b.effectiveCalls (calls ++ calls') = b.effectiveCalls calls + (b.run calls).effectiveCalls calls' := by
  simp [effectiveCalls, history, Machine.trace_append]

/-! ## Two-phase admission -/

section
variable {mem : Memory} {session : SessionStateView} {now : UInt32} {polls : Storage PollCandidate} {n : UInt16}
  {ctx : Ptr} {a : StoreForwardAction}

/-- `admitAction` took the action. -/
def Accepted (status : StoreForwardActionAdmitStatus) : Prop := status = .admitted ∨ status = .consumed

theorem admitAction_accepted_iff (h : b.Coherent) :
    Accepted (b.admitAction mem a session polls n).1 ↔ b.inFlight = false ∧ Proposes mem b session polls n a := by
  constructor
  · intro hacc
    by_cases hp : b.inFlight = false ∧ Proposes mem b session polls n a
    · exact hp
    · rcases (admitAction_refused hp).1 with ⟨e, _⟩ | ⟨e, _⟩ | e <;> rw [e] at hacc <;> rcases hacc with h | h <;> cases h
  · rintro ⟨hf, hp⟩
    rcases admitAction_cases h mem a session polls n with ⟨hno, _⟩ | ⟨_, _, ⟨_, _, _, heq⟩ | ⟨_, _, _, heq⟩ | ⟨_, _, heq⟩⟩
    · exact absurd ⟨hf, hp⟩ hno
    · rw [heq]; exact Or.inr rfl
    · rw [heq]; exact Or.inl rfl
    · rw [heq]; exact Or.inl rfl

theorem admitAction_consumed_iff (h : b.Coherent) (hacc : Accepted (b.admitAction mem a session polls n).1) :
    (b.admitAction mem a session polls n).1 = .consumed ↔ a.requiresCompletion = false := by
  have hprop := (admitAction_accepted_iff h).1 hacc
  rcases admitAction_cases h mem a session polls n with
    ⟨hno, _⟩ | ⟨_, _, ⟨_, _, hreq, heq⟩ | ⟨_, _, hreq, heq⟩ | ⟨_, hw, heq⟩⟩
  · exact absurd hprop hno
  · simp [heq, hreq]
  · simp [heq, hreq]
  · have hreq : a.requiresCompletion = true := by rw [hw.shape]
    simp [heq, hreq]

/-- A proposed poll does not depend on the caller's consistency context. -/
theorem previewAction_poll_context (h : b.Coherent) {i : UInt16}
    (hsel : b.pollPlanner.select now b.queue.head?.isSome polls n b.pollState = (.selected, .fromCandidateSet .poll i n))
    (ctx ctx' : Ptr) : b.previewAction mem session now polls n ctx = b.previewAction mem session now polls n ctx' := by
  unfold previewAction
  simp only [h.front_eq, hsel]
  simp [PollSelection.fromCandidateSet]

/-- What a ready preview proposes, a preview with the action's own arguments proposes again. -/
theorem proposes_of_preview (h : b.Coherent) (hr : b.nextAction mem session now polls n ctx = (.ready, a)) :
    b.inFlight = false ∧ Proposes mem b session polls n a := by
  simp only [nextAction, Prod.mk.injEq] at hr
  obtain ⟨h1, h2⟩ := hr
  rcases previewAction_cases h mem session now polls n ctx with ⟨hbad, _⟩ | ⟨_, hf, i, hp⟩ | ⟨_, hf, front, hw, _⟩
  · exact absurd h1 hbad
  · rw [h2] at hp
    have hnow : a.selectedAt = now := by rw [hp.shape]
    refine ⟨hf, proposes_iff.2 ?_⟩
    rw [hnow, previewAction_poll_context h hp.selected _ ctx]
    exact ⟨h1, h2⟩
  · rw [h2] at hw
    have hnow : a.selectedAt = now := by rw [hw.shape]
    have hctx : a.downstream.consistencyContext = ctx := by rw [hw.shape]; rfl
    refine ⟨hf, proposes_iff.2 ?_⟩
    rw [hnow, hctx]
    exact ⟨h1, h2⟩

/-- A proposal carries the revision it was made at. -/
theorem Proposes.revision (h : b.Coherent) (hp : Proposes mem b session polls n a) : a.proposalRevision = b.revision := by
  obtain ⟨h1, h2⟩ := proposes_iff.1 hp
  rcases previewAction_cases h mem session a.selectedAt polls n a.downstream.consistencyContext with
    ⟨hbad, _⟩ | ⟨_, _, i, hp⟩ | ⟨_, _, front, hw, _⟩
  · exact absurd h1 hbad
  · rw [h2] at hp; rw [hp.shape]
  · rw [h2] at hw; rw [hw.shape]

end

/-- **Two-phase admission is exact.** In every reachable state `admitAction` takes an action if
and only if nothing is in flight and `nextAction`, asked again with the action's own time and
context, proposes that very action; it consumes it exactly when no completion is required; a
ready preview is taken when admitted at once; and after an effective call an older preview is
refused, for fewer effective calls than there are revisions. -/
theorem admission_exact (hb : b.Deployed) (calls : List Call) :
    (∀ mem a session polls n, (Accepted ((b.run calls).admitAction mem a session polls n).1 ↔
        (b.run calls).inFlight = false ∧
        ((b.run calls).nextAction mem session a.selectedAt polls n a.downstream.consistencyContext).1 = .ready ∧
        sameStoreForwardAction a
          ((b.run calls).nextAction mem session a.selectedAt polls n a.downstream.consistencyContext).2 = true) ∧
      (Accepted ((b.run calls).admitAction mem a session polls n).1 →
        (((b.run calls).admitAction mem a session polls n).1 = .consumed ↔ a.requiresCompletion = false))) ∧
    (∀ mem session now polls n ctx, ((b.run calls).nextAction mem session now polls n ctx).1 = .ready →
      Accepted ((b.run calls).admitAction mem ((b.run calls).nextAction mem session now polls n ctx).2 session polls n).1) ∧
    (∀ mem session now polls n ctx, ((b.run calls).nextAction mem session now polls n ctx).1 = .ready →
      ∀ later, 0 < (b.run calls).effectiveCalls later → (b.run calls).effectiveCalls later < revisionCycle →
      ∀ mem' session' polls' n', ¬ Accepted ((b.run (calls ++ later)).admitAction mem'
        ((b.run calls).nextAction mem session now polls n ctx).2 session' polls' n').1) := by
  have h := run_coherent hb.coherent calls
  obtain ⟨hrev1, hidle⟩ := hb.revision_one
  refine ⟨fun mem a session polls n => ⟨?_, admitAction_consumed_iff h⟩, ?_, ?_⟩
  · rw [admitAction_accepted_iff h, Proposes, Prod.ext_iff]
    simp only [sameStoreForwardAction_iff]
    exact and_congr_right fun _ => and_congr_right fun _ => eq_comm
  · intro mem session now polls n ctx hr
    exact (admitAction_accepted_iff h).2 (proposes_of_preview h (Prod.ext hr rfl))
  · intro mem session now polls n ctx hr later hpos hlt mem' session' polls' n' hacc
    have hp := (proposes_of_preview h (Prod.ext hr rfl)).2.revision h
    have h' := run_coherent hb.coherent (calls ++ later)
    have hp' := ((admitAction_accepted_iff h').1 hacc).2.revision h'
    have hb0 : b.revision ≠ 0 := by rw [hrev1]; decide
    rw [(run_revision hb.coherent hidle _).1] at hp hp'
    rw [effectiveCalls_append, Nat.add_comm, Function.iterate_add_apply, ← (run_revision hb.coherent hidle calls).1] at hp'
    have hne : (b.run calls).revision ≠ 0 := by
      rw [(run_revision hb.coherent hidle calls).1]; exact iterate_sequence_ne_zero hb0 _
    rw [← (run_revision hb.coherent hidle calls).1] at hp
    exact iterate_sequence_inj hne hpos hlt (hp.symm.trans hp')

/-- What the facade of the test proposes with both works queued. -/
def testPreview : StoreForwardAction := ((testBridge.run (testCalls 0)).nextAction testMemory testSession 0 none 0 .null).2

/-- It is taken at once, and refused after it was admitted and completed. -/
theorem admission_exact_test :
    Accepted ((testBridge.run (testCalls 0)).admitAction testMemory testPreview testSession none 0).1 ∧
    ¬ Accepted ((testBridge.run (testCalls 1)).admitAction testMemory testPreview testSession none 0).1 :=
  have h := (admission_exact testBridge_deployed (testCalls 0)).2
  have hready : ((testBridge.run (testCalls 0)).nextAction testMemory testSession 0 none 0 .null).1 = .ready := by
    decide +kernel
  ⟨h.1 testMemory testSession 0 none 0 .null hready,
    h.2 testMemory testSession 0 none 0 .null hready (forwardOnce (testBridge.run (testCalls 0))) (by decide +kernel)
      (by decide +kernel) testMemory testSession none 0⟩

/-! ## Completion -/

section
variable {a : StoreForwardAction} {outcome : DownstreamOutcome} {session : SessionStateView}

theorem complete_taken (ht : Taken (b.complete a outcome session).1) :
    b.inFlight = true ∧ b.inFlightAction = a ∧ isKnownDownstreamOutcome outcome = true := by
  by_cases hacc : b.inFlight = true ∧ b.inFlightAction = a ∧ isKnownDownstreamOutcome outcome = true
  · exact hacc
  · rcases (complete_refused session hacc).1 with e | e | e <;>
      rcases ht with h | h <;> rw [e] at h <;> cases h

theorem complete_completed (h : b.Coherent) (hf : b.inFlight = true) (ha : b.inFlightAction = a)
    (hknown : isKnownDownstreamOutcome outcome = true)
    (hcur : a.kind = .poll ∨ workCurrent a.write.identity.work session = true) :
    (b.complete a outcome session).1.status = .completed := by
  rcases complete_cases h a outcome session with hno | ⟨_, _, _, ⟨_, heq⟩ | ⟨_, _, _, _, _, _, heq, _⟩ |
    ⟨_, _, _, ho, _, hstale, _, _⟩⟩
  · exact absurd ⟨hf, ha, hknown⟩ hno
  · rw [heq]
  · rw [heq]; rfl
  · have hk := (outstanding_eq_some.1 ho).2.2
    rcases hcur with h | h
    · rw [h] at hk; cases hk
    · rw [h] at hstale; cases hstale

/-- After an accepted completion nothing is in flight. -/
theorem complete_lands (h : b.Coherent) (ht : Taken (b.complete a outcome session).1) :
    (b.complete a outcome session).2.inFlight = false := by
  rcases complete_cases h a outcome session with hno | ⟨_, _, _, ⟨_, heq⟩ | ⟨_, _, _, _, _, _, heq, _⟩ |
    ⟨_, _, _, _, _, _, heq, _⟩⟩
  · exact absurd (complete_taken ht) hno
  all_goals rw [heq]; rfl

end

/-- **A completed action is refused from then on**, whatever happens next. -/
theorem complete_once (hb : b.Deployed) {calls later : List Call} {mem : Memory} {a : StoreForwardAction}
    {outcome outcome' : DownstreamOutcome} {session session' : SessionStateView}
    (ht : Taken ((b.run calls).complete a outcome session).1)
    (hlt : b.effectiveCalls (calls ++ ⟨mem, .complete a outcome session⟩ :: later) < revisionCycle) :
    ¬ Taken ((b.run (calls ++ ⟨mem, .complete a outcome session⟩ :: later)).complete a outcome' session').1 := by
  intro ht'
  obtain ⟨hrev1, hidle⟩ := hb.revision_one
  have hb0 : b.revision ≠ 0 := by rw [hrev1]; decide
  have h := run_coherent hb.coherent calls
  -- the retained action was proposed at revision `j` of the walk, before `calls` ended
  obtain ⟨hf, ha, _⟩ := complete_taken ht
  obtain ⟨hrev, hfl⟩ := run_revision hb.coherent hidle calls
  obtain ⟨j, hj, hp⟩ := hfl hf
  rw [ha] at hp
  -- what is in flight later was proposed after the completion
  have hland := complete_lands h ht
  have hcoh : ((b.run calls).complete a outcome session).2.Coherent :=
    exec_coherent h ⟨mem, .complete a outcome session⟩
  obtain ⟨_, hfl'⟩ := run_revision hcoh hland later
  have hrun : b.run (calls ++ ⟨mem, .complete a outcome session⟩ :: later) =
      ((b.run calls).complete a outcome session).2.run later := by
    simp [run, Machine.final_append, exec]
  obtain ⟨hf', ha', _⟩ := complete_taken ht'
  rw [hrun] at hf' ha'
  obtain ⟨j', hj', hp'⟩ := hfl' hf'
  rw [ha'] at hp'
  have hone : b.effectiveCalls (calls ++ [⟨mem, .complete a outcome session⟩]) = b.effectiveCalls calls + 1 := by
    rw [effectiveCalls_append]
    rcases ht with e | e <;> simp [effectiveCalls, history, exec, Res.effective, e]
  have hrev' := (run_revision hb.coherent hidle (calls ++ [⟨mem, .complete a outcome session⟩])).1
  rw [show b.run (calls ++ [⟨mem, .complete a outcome session⟩]) = ((b.run calls).complete a outcome session).2 by
    simp [run, Machine.final_append, exec], hone] at hrev'
  rw [hrev', ← Function.iterate_add_apply] at hp'
  have htotal : b.effectiveCalls (calls ++ ⟨mem, .complete a outcome session⟩ :: later) =
      b.effectiveCalls calls + 1 + ((b.run calls).complete a outcome session).2.effectiveCalls later := by
    rw [show calls ++ (⟨mem, .complete a outcome session⟩ : Call) :: later =
      (calls ++ [⟨mem, .complete a outcome session⟩]) ++ later by simp, effectiveCalls_append, hone]
    simp [run, Machine.final_append, exec]
  exact iterate_sequence_inj hb0 (i := j) (j := j' + (b.effectiveCalls calls + 1)) (by omega)
    (by omega) (hp.symm.trans hp')

/-- `c` is a `complete` call for `a`, and it took it. -/
def Completes (a : StoreForwardAction) (e : Machine.Event StoreForwardBridge Call Res) : Bool :=
  match e.input.op, e.output with
  | .complete a' _ _, .completion r => decide (a' = a ∧ Taken r)
  | _, _ => false

theorem completes_iff {a : StoreForwardAction} {e : Machine.Event StoreForwardBridge Call Res}
    (ho : e.output = (e.before.exec e.input).1) :
    Completes a e = true ↔ ∃ mem outcome session, e.input = ⟨mem, .complete a outcome session⟩ ∧
      Taken (e.before.complete a outcome session).1 := by
  obtain ⟨s, ⟨mem, op⟩, o⟩ := e
  simp only at ho
  subst ho
  cases op with
  | complete a' outcome session =>
    simp only [Completes, exec, decide_eq_true_eq]
    constructor
    · rintro ⟨rfl, ht⟩; exact ⟨mem, outcome, session, rfl, ht⟩
    · rintro ⟨_, _, _, e, ht⟩; cases e; exact ⟨rfl, ht⟩
  | _ => simp [Completes]

/-- An accepted completion somewhere in a run cuts the run there. -/
theorem completes_split {calls : List Call} {a : StoreForwardAction}
    (h : ∃ e ∈ b.history calls, Completes a e = true) :
    ∃ before mem outcome session later, calls = before ++ ⟨mem, .complete a outcome session⟩ :: later ∧
      Taken ((b.run before).complete a outcome session).1 := by
  obtain ⟨e, hmem, he⟩ := h
  obtain ⟨pre, post, hsplit⟩ := List.append_of_mem hmem
  obtain ⟨before, later, rfl, _, hbefore, hout, _⟩ := Machine.trace_split exec hsplit
  obtain ⟨mem, outcome, session, hin, ht⟩ := (completes_iff hout).1 he
  rw [hbefore] at ht
  exact ⟨before, mem, outcome, session, later, by rw [hin], ht⟩

/-- After an accepted completion of `a` no further one is accepted. -/
theorem completed_refused (hb : b.Deployed) {calls : List Call} {a : StoreForwardAction}
    (hlt : b.effectiveCalls calls < revisionCycle) (h : ∃ e ∈ b.history calls, Completes a e = true)
    (outcome : DownstreamOutcome) (session : SessionStateView) :
    ¬ Taken ((b.run calls).complete a outcome session).1 := by
  obtain ⟨before, mem, o, ses, later, rfl, ht⟩ := completes_split h
  exact complete_once hb ht hlt

theorem countP_completes_le (hb : b.Deployed) (a : StoreForwardAction) (calls : List Call)
    (hlt : b.effectiveCalls calls < revisionCycle) : (b.history calls).countP (Completes a) ≤ 1 := by
  induction calls using List.reverseRecOn with
  | nil => exact Nat.zero_le _
  | append_singleton calls c ih =>
    rw [effectiveCalls_append] at hlt
    have hprev : b.effectiveCalls calls < revisionCycle := by omega
    have hlast : b.history (calls ++ [c]) = b.history calls ++ [⟨b.run calls, c, ((b.run calls).exec c).1⟩] := by
      simp [history, run, Machine.trace_append]
    rw [hlast, List.countP_append, List.countP_singleton]
    split
    · rename_i hc
      obtain ⟨mem, outcome, session, _, ht⟩ := (completes_iff rfl).1 hc
      have hzero : (b.history calls).countP (Completes a) = 0 := by
        rw [List.countP_eq_zero]
        intro e he hce
        exact completed_refused hb hprev ⟨e, he, hce⟩ outcome session ht
      omega
    · exact ih hprev

/-- **Each admitted action is completed at most once and only by itself.** `complete` takes
only the retained action with a known outcome; it completes every such poll and every such
write whose work is current; and in a run shorter than the revision cycle no action is taken
twice, so a replay of a completed action is refused. -/
theorem completion_exact (hb : b.Deployed) (calls : List Call) :
    (∀ a outcome session, Taken ((b.run calls).complete a outcome session).1 →
      (b.run calls).inFlight = true ∧ sameStoreForwardAction a (b.run calls).inFlightAction = true ∧
      isKnownDownstreamOutcome outcome = true) ∧
    (∀ a outcome session, (b.run calls).inFlight = true → sameStoreForwardAction a (b.run calls).inFlightAction = true →
      isKnownDownstreamOutcome outcome = true →
      a.kind = .poll ∨ workCurrent a.write.identity.work session = true →
      ((b.run calls).complete a outcome session).1.status = .completed) ∧
    (b.effectiveCalls calls < revisionCycle → ∀ a,
      (b.history calls).countP (Completes a) ≤ 1 ∧
      ((b.history calls).countP (Completes a) = 1 → ∀ outcome session,
        ¬ Taken ((b.run calls).complete a outcome session).1)) := by
  have h := run_coherent hb.coherent calls
  refine ⟨?_, ?_, ?_⟩
  · intro a outcome session ht
    obtain ⟨hf, ha, hk⟩ := complete_taken ht
    exact ⟨hf, by simp [ha], hk⟩
  · intro a outcome session hf ha hknown hcur
    exact complete_completed h hf (sameStoreForwardAction_iff.1 ha).symm hknown hcur
  · intro hlt a
    refine ⟨countP_completes_le hb a calls hlt, ?_⟩
    intro hone outcome session
    have hex : ∃ e ∈ b.history calls, Completes a e = true := List.countP_pos_iff.1 (by omega)
    exact completed_refused hb hlt hex outcome session

/-- Completed once, the first fragment of the test is not taken again. -/
theorem completion_exact_test : (testBridge.history (testCalls 1)).countP (Completes testPreview) = 1 ∧
    ¬ Taken ((testBridge.run (testCalls 1)).complete testPreview .applied testSession).1 :=
  have hone : (testBridge.history (testCalls 1)).countP (Completes testPreview) = 1 := by decide +kernel
  ⟨hone, ((completion_exact testBridge_deployed (testCalls 1)).2.2 (by decide +kernel) testPreview).2 hone .applied testSession⟩

end StoreForwardBridge

end ModbusRTUBridge
