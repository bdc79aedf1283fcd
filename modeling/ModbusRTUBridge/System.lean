import ModbusRTUBridge.Lib.Machine
import ModbusRTUBridge.Lifecycle
import ModbusRTUBridge.Proposal
import ModbusRTUBridge.Settlement
/-!
# Runs of the facade

A `Call` is one public call with all its arguments and the memory its snapshots live in at
that moment; `exec` performs it. `Step` says once what a call can do to a coherent facade, and
`exec_step` that it does one of these things; every invariant of a run is read off `Step`.
-/

namespace ModbusRTUBridge

/-- A work of either element type. -/
inductive Ingress where
  | coils (work : CoilIngressWorkView)
  | holding (work : HoldingIngressWorkView)

/-- The public calls of the facade that may change it, and `nextAction`. -/
inductive Op where
  | admitWork (work : Ingress) (session : SessionStateView) (userContext : Ptr)
  | nextAction (session : SessionStateView) (now : UInt32) (polls : Storage PollCandidate) (pollCount : UInt16)
      (writeConsistencyContext : Ptr)
  | admitAction (action : StoreForwardAction) (session : SessionStateView) (polls : Storage PollCandidate)
      (pollCount : UInt16)
  | complete (action : StoreForwardAction) (outcome : DownstreamOutcome) (session : SessionStateView)
  | discardOneStaleWork (session : SessionStateView)
  | abandonFront
  | reset

structure Call where
  memory : Memory
  op : Op

inductive Res where
  | admission (r : StoreForwardAdmission)
  | preview (status : StoreForwardNextStatus) (action : StoreForwardAction)
  | actionAdmission (status : StoreForwardActionAdmitStatus)
  | completion (r : StoreForwardCompletion)
  | retirement (status : StoreForwardRetireStatus) (r : StoreForwardRetirement)
  | reset (done : Bool)
deriving DecidableEq

/-- The call succeeded in changing the facade. -/
def Res.effective : Res → Bool
  | .admission r => r.status == .admitted
  | .preview _ _ => false
  | .actionAdmission status => status == .admitted || status == .consumed
  | .completion r => r.status == .completed || r.status == .staleSession
  | .retirement status _ => status == .retired
  | .reset done => done

/-- The call was refused. -/
def Res.failed : Res → Bool
  | .preview _ _ => false
  | r => !r.effective

namespace StoreForwardBridge

/-- `admitWork`, whichever overload the element type selects. -/
def admitIngress (b : StoreForwardBridge) (work : Ingress) (session : SessionStateView) (ctx : Ptr) :
    StoreForwardAdmission × StoreForwardBridge :=
  match work with
  | .coils work => b.admitWork work session ctx
  | .holding work => b.admitWork work session ctx

/-- One public call. -/
def exec (b : StoreForwardBridge) (c : Call) : Res × StoreForwardBridge :=
  match c.op with
  | .admitWork work session ctx => (.admission (b.admitIngress work session ctx).1, (b.admitIngress work session ctx).2)
  | .nextAction session now polls n ctx =>
    (.preview (b.nextAction c.memory session now polls n ctx).1 (b.nextAction c.memory session now polls n ctx).2, b)
  | .admitAction a session polls n =>
    (.actionAdmission (b.admitAction c.memory a session polls n).1, (b.admitAction c.memory a session polls n).2)
  | .complete a outcome session => (.completion (b.complete a outcome session).1, (b.complete a outcome session).2)
  | .discardOneStaleWork session =>
    (.retirement (b.discardOneStaleWork session).1 (b.discardOneStaleWork session).2.1, (b.discardOneStaleWork session).2.2)
  | .abandonFront => (.retirement b.abandonFront.1 b.abandonFront.2.1, b.abandonFront.2.2)
  | .reset => (.reset b.reset.1, b.reset.2)

/-- `complete` took the action. -/
def Taken (r : StoreForwardCompletion) : Prop := r.status = .completed ∨ r.status = .staleSession

instance (r : StoreForwardCompletion) : Decidable (Taken r) := by unfold Taken; infer_instance

/-- The state a run of calls ends in, and the calls and results on the way. -/
abbrev run (b : StoreForwardBridge) (calls : List Call) : StoreForwardBridge := Machine.final exec b calls

abbrev history (b : StoreForwardBridge) (calls : List Call) : List (Machine.Event StoreForwardBridge Call Res) :=
  Machine.trace exec b calls

/-! ## Failed calls -/

section
variable {b : StoreForwardBridge} {mem : Memory} {a : StoreForwardAction} {session : SessionStateView}
  {polls : Storage PollCandidate} {n : UInt16} {outcome : DownstreamOutcome}

/-- A completion that settles nothing. -/
def Unsettled (r : StoreForwardCompletion) : Prop := r.status ≠ .completed ∧ r.status ≠ .staleSession

theorem completeWrite_failed {r : StoreForwardCompletion} (h : Unsettled (b.completeWrite r a outcome session).1) :
    (b.completeWrite r a outcome session).2 = b := by
  unfold completeWrite at h ⊢
  apply Guard.skip Unsettled h
  intro _ h
  simp only at h ⊢
  split
  · rename_i hres
    rw [if_pos hres] at h
    split
    · rename_i hstale
      rw [if_pos hstale] at h
      exact absurd rfl h.2
    · simp only [CompletionLedger.resolve_noop hres]
  · rename_i hres
    rw [if_neg hres] at h
    exact absurd rfl h.1

theorem complete_failed (h : Unsettled (b.complete a outcome session).1) : (b.complete a outcome session).2 = b := by
  unfold complete at h ⊢
  simp only at h ⊢
  refine Guard.skip Unsettled h fun _ h => Guard.skip Unsettled h fun _ h => Guard.skip Unsettled h fun _ h => ?_
  split
  · rename_i hpoll
    rw [if_pos hpoll] at h
    exact absurd rfl h.1
  · rename_i hpoll
    rw [if_neg hpoll] at h
    exact completeWrite_failed h

/-- An action that was not taken. -/
def Untaken (status : StoreForwardActionAdmitStatus) : Prop := status ≠ .admitted ∧ status ≠ .consumed

/-- A commit that fails wrote the old state back. -/
theorem commit_failed {selection : PollSelection} {now : UInt32}
    (h : ¬ (PollPlanner.commit selection n now b.pollState).1 = true) :
    ({ b with pollState := (PollPlanner.commit selection n now b.pollState).2 } : StoreForwardBridge) = b := by
  rw [PollPlanner.commit_false (by simpa using h)]

theorem admitForwardWrite_failed {preview : StoreForwardPreview} (h : Untaken (b.admitForwardWrite a preview).1) :
    (b.admitForwardWrite a preview).2 = b := by
  unfold admitForwardWrite at h ⊢
  apply Guard.skip Untaken h
  intro _ h
  split
  · rfl
  rename_i front hfront
  simp only [hfront] at h
  simp only
  split
  · rename_i hcommit
    exact commit_failed (by simpa using hcommit)
  · rename_i hcommit
    rw [if_neg hcommit] at h
    split
    · rename_i hissued
      simp only [CompletionLedger.recordIssued_noop hissued]
    · rename_i hissued
      rw [if_neg hissued] at h
      exact absurd rfl h.1

theorem admitPoll_failed (h : Untaken (b.admitPoll a).1) : (b.admitPoll a).2 = b := by
  unfold admitPoll at h ⊢
  refine Guard.skip Untaken h fun _ h => Guard.skip Untaken h fun _ h => Guard.skip Untaken h fun _ h => ?_
  simp only at h ⊢
  split
  · rename_i hcommit
    exact commit_failed (by simpa using hcommit)
  · rename_i hcommit
    rw [if_neg hcommit] at h
    exact absurd rfl h.1

theorem admitAction_failed (h : Untaken (b.admitAction mem a session polls n).1) :
    (b.admitAction mem a session polls n).2 = b := by
  unfold admitAction at h ⊢
  refine Guard.skip Untaken h fun _ h => Guard.skip Untaken h fun _ h => Guard.skip Untaken h fun _ h => ?_
  simp only at h ⊢
  apply Guard.skip Untaken h
  intro _ h
  split
  · rename_i hskip
    rw [if_pos hskip] at h
    apply Guard.skip Untaken h
    intro _ h
    split
    · rename_i hcommit
      exact commit_failed (by simpa using hcommit)
    · rename_i hcommit
      rw [if_neg hcommit] at h
      exact absurd rfl h.2
  · rename_i hskip
    rw [if_neg hskip] at h
    apply Guard.skip Untaken h
    intro _ h
    cases hk : a.kind with
    | forwardWrite => simp only [hk] at h ⊢; exact admitForwardWrite_failed h
    | poll => simp only [hk] at h ⊢; exact admitPoll_failed h
    | none => rfl
    | unknown raw => rfl

end

/-- **A call that does not take effect changes nothing**, whatever state the facade is in. -/
theorem exec_noop (b : StoreForwardBridge) (c : Call) (h : (b.exec c).1.effective = false) : (b.exec c).2 = b := by
  obtain ⟨mem, op⟩ := c
  cases op with
  | admitWork work session ctx =>
    have h' : (b.admitIngress work session ctx).1.status ≠ .admitted := by simpa [exec, Res.effective] using h
    cases work <;> exact admitWork_refused h'
  | nextAction => rfl
  | admitAction a session polls n =>
    simp only [exec, Res.effective, Bool.or_eq_false_iff, beq_eq_false_iff_ne] at h
    exact admitAction_failed h
  | complete a outcome session =>
    simp only [exec, Res.effective, Bool.or_eq_false_iff, beq_eq_false_iff_ne] at h
    exact complete_failed h
  | discardOneStaleWork session => exact discardOneStaleWork_refused (by simpa [exec, Res.effective] using h)
  | abandonFront => exact abandonFront_refused (by simpa [exec, Res.effective] using h)
  | reset => exact reset_refused (by simpa [exec, Res.effective] using h)

/-- The calls of a run that were not refused. -/
def succeeded (b : StoreForwardBridge) (calls : List Call) : List Call :=
  Machine.keep (fun _ r => !r.failed) (b.history calls)

/-- **Refused calls are no-ops.** Each leaves the whole facade as it was, so deleting all of
them from a run keeps the final state and every other call's state and result. -/
theorem failed_calls_noop (b : StoreForwardBridge) (calls : List Call) :
    (∀ c, ((b.run calls).exec c).1.failed = true → ((b.run calls).exec c).2 = b.run calls) ∧
    b.run (b.succeeded calls) = b.run calls ∧
    b.history (b.succeeded calls) = (b.history calls).filter fun e => !e.output.failed := by
  have hnoop : ∀ (s : StoreForwardBridge) (c : Call), (s.exec c).1.failed = true → (s.exec c).2 = s := by
    intro s c hf
    refine exec_noop s c ?_
    cases hr : (s.exec c).1 <;> rw [hr] at hf <;> simp_all [Res.failed, Res.effective]
  have hskip : ∀ (s : StoreForwardBridge) (c : Call), (!(s.exec c).1.failed) = false → (s.exec c).2 = s :=
    fun s c hf => hnoop s c (by simpa using hf)
  exact ⟨fun c => hnoop _ c, Machine.final_skip (q := fun _ (r : Res) => !r.failed) hskip b calls,
    Machine.trace_skip (q := fun _ (r : Res) => !r.failed) hskip b calls⟩

end StoreForwardBridge

end ModbusRTUBridge
