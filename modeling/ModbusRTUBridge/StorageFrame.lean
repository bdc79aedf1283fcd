import ModbusRTUBridge.QueueModel
import ModbusRTUBridge.Steps
/-!
# Calls stay inside the caller's storage

The facade borrows two arrays, the work slots and the ledger slots. `Within` says that an
operation kept both capacities and changed no cell past them; every call of a coherent facade is
such an operation (`exec_within`), whatever it is and whether or not it is refused.
-/

namespace ModbusRTUBridge

/-! ## The ledger -/

namespace CompletionLedger

/-- `l'` is `l` with nothing but its size and slots below its capacity changed. -/
structure Within (l l' : CompletionLedger) : Prop where
  capacity : l'.capacity = l.capacity
  outside : ∀ j, l.capacity.toNat ≤ j → l'.slot j = l.slot j

variable {l l' l'' : CompletionLedger} {i : Nat} {w : WorkIdentity}

theorem Within.refl (l : CompletionLedger) : Within l l := ⟨rfl, fun _ _ => rfl⟩

theorem Within.trans (h : Within l l') (h' : Within l' l'') : Within l l'' := by
  refine ⟨h'.capacity.trans h.capacity, ?_⟩
  intro j hj
  rw [h'.outside j (by rw [h.capacity]; exact hj), h.outside j hj]

theorem within_setSlot (hi : i < l.capacity.toNat) (s : CompletionLedgerSlot) : Within l (l.setSlot i s) := by
  refine ⟨rfl, ?_⟩
  intro j hj
  exact Storage.at_set_ne l.slots s (by omega)

/-- The scans only answer with slots of the ledger. -/
theorem firstIndex_lt {test : CompletionLedgerSlot → Bool} (h : l.firstIndex test = some i) : i < l.capacity.toNat :=
  List.mem_range.1 (List.mem_of_find?_eq_some h)

theorem find_lt (h : l.find w = some i) : i < l.capacity.toNat := by
  unfold find at h
  split at h
  · cases h
  · exact firstIndex_lt h

theorem within_reserve (l : CompletionLedger) (w : WorkIdentity) (d : IngressDelivery) : Within l (l.reserve w d).2 := by
  unfold reserve
  split
  · exact .refl l
  split
  · exact .refl l
  split
  · exact .refl l
  split
  · exact .refl l
  · rename_i i hfree
    have hi : i < l.capacity.toNat := by
      unfold firstFree at hfree
      split at hfree
      · cases hfree
      · exact firstIndex_lt hfree
    have h := within_setSlot hi (reservedSlot w d)
    exact ⟨h.capacity, h.outside⟩

theorem within_recordIssued (l : CompletionLedger) (request : PlannedWriteRequest) :
    Within l (l.recordIssued request).2 := by
  unfold recordIssued
  split
  · exact .refl l
  split
  · exact .refl l
  · rename_i i hfind
    simp only
    repeat' split
    all_goals first | exact .refl l | exact within_setSlot (find_lt hfind) _

theorem within_closePlanningAfterFailure (l : CompletionLedger) (w : WorkIdentity) :
    Within l (l.closePlanningAfterFailure w).2 := by
  unfold closePlanningAfterFailure
  split
  · exact .refl l
  · rename_i i hfind
    simp only
    split
    · exact .refl l
    · exact within_setSlot (find_lt hfind) _

theorem within_resolve (l : CompletionLedger) (expected : PlannedWriteRequest) (observed : CompletionRecord)
    (session : SessionStateView) : Within l (l.resolve expected observed session).2 := by
  unfold resolve
  split
  · exact .refl l
  · rename_i i hfind
    simp only
    repeat' split
    all_goals first
      | exact .refl l
      | exact within_setSlot (find_lt hfind) _
      | rw [setSlot_setSlot]; exact within_setSlot (find_lt hfind) _

theorem within_releaseSlot (hi : i < l.capacity.toNat) : Within l (l.releaseSlot i) :=
  have h := within_setSlot hi {}
  ⟨h.capacity, h.outside⟩

theorem within_release (l : CompletionLedger) (w : WorkIdentity) : Within l (l.release w).2 := by
  unfold release
  split
  · exact .refl l
  · rename_i i hfind
    split
    · exact .refl l
    · exact within_releaseSlot (find_lt hfind)

theorem within_abandon (l : CompletionLedger) (w : WorkIdentity) : Within l (l.abandon w).2 := by
  unfold abandon
  split
  · exact .refl l
  · rename_i i hfind
    exact within_releaseSlot (find_lt hfind)

end CompletionLedger

/-! ## The queue -/

namespace FixedRingQueue

/-- `q'` is `q` with nothing but its indices and cells below its capacity changed. -/
structure Within {T : Type} [Inhabited T] (q q' : FixedRingQueue T) : Prop where
  capacity : q'.capacity = q.capacity
  outside : ∀ j, q.capacity.toNat ≤ j → q'.storage.at j = q.storage.at j

variable {T : Type} [Inhabited T] {q q' q'' : FixedRingQueue T}

theorem Within.refl (q : FixedRingQueue T) : Within q q := ⟨rfl, fun _ _ => rfl⟩

theorem Within.trans (h : Within q q') (h' : Within q' q'') : Within q q'' := by
  refine ⟨h'.capacity.trans h.capacity, ?_⟩
  intro j hj
  rw [h'.outside j (by rw [h.capacity]; exact hj), h.outside j hj]

/-- Every operation of a well-formed queue accesses its own cells. -/
theorem WF.within_step (h : q.WF) (call : QueueCall T) : Within q (q.step call).2 := by
  refine ⟨step_capacity q call, ?_⟩
  intro j hj
  refine step_unwritten fun i hi => ?_
  have := accesses_lt h call i hi
  omega

theorem WF.within_writeFront (h : q.WF) {x : T} {xs : List T} (hl : q.toList = x :: xs) (y : T) :
    Within q (q.writeFront y) := by
  have hpos : 0 < q.size.toNat := by rw [← length_toList, hl]; simp
  have hle := h.size_le
  have hhead : q.head.toNat < q.capacity.toNat := by have := h.head_lt; omega
  refine ⟨rfl, ?_⟩
  intro j hj
  exact Storage.at_set_ne q.storage y (by omega)

end FixedRingQueue

/-! ## The facade -/

namespace StoreForwardBridge

/-- Both arrays were only changed inside. -/
structure Within (b b' : StoreForwardBridge) : Prop where
  queue : b.workQueue.Within b'.workQueue
  ledger : b.completionLedger.Within b'.completionLedger

variable {b b' b'' : StoreForwardBridge} {session : SessionStateView} {mem : Memory} {polls : Storage PollCandidate}
  {n : UInt16} {outcome : DownstreamOutcome} {a : StoreForwardAction}

theorem Within.refl (b : StoreForwardBridge) : Within b b := ⟨.refl _, .refl _⟩

theorem Within.trans (h : Within b b') (h' : Within b' b'') : Within b b'' :=
  ⟨h.queue.trans h'.queue, h.ledger.trans h'.ledger⟩

theorem within_admitWork {Value : Type} [AppliedPayload Value] (h : b.workQueue.WF) (work : IngressWorkView Value)
    (session : SessionStateView) (ctx : Ptr) : Within b (b.admitWork work session ctx).2 := by
  have hreserve := CompletionLedger.within_reserve b.completionLedger work.identity work.delivery
  unfold admitWork
  split
  · exact .refl b
  split
  · exact .refl b
  simp only
  split
  · exact .refl b
  split
  · exact ⟨.refl _, hreserve⟩
  split
  · exact ⟨.refl _, hreserve.trans (CompletionLedger.within_abandon _ _)⟩
  · exact ⟨h.within_step (.tryPush _), hreserve⟩

theorem within_admitAction (h : b.Coherent) (mem : Memory) (a : StoreForwardAction) (session : SessionStateView)
    (polls : Storage PollCandidate) (n : UInt16) : Within b (b.admitAction mem a session polls n).2 := by
  rcases admitAction_cases h mem a session polls n with
    ⟨_, _, _, heq⟩ | ⟨_, _, ⟨i, _, _, heq⟩ | ⟨i, _, _, heq⟩ | ⟨front, hw, heq⟩⟩
  · rw [heq]
    exact .refl b
  · rw [heq]
    exact ⟨.refl _, .refl _⟩
  · rw [heq]
    exact ⟨.refl _, .refl _⟩
  · rw [heq]
    have hhead := hw.head
    cases hq : b.queue with
    | nil => rw [hq] at hhead; cases hhead
    | cons s rest => exact ⟨h.queue.within_writeFront hq _, CompletionLedger.within_recordIssued _ _⟩

/-- The front may leave, and the ledger is changed inside. -/
theorem within_popFrontIf (h : b.workQueue.WF) (w : WorkIdentity) : Within b (b.popFrontIf w) := by
  unfold popFrontIf
  split
  · split
    · exact ⟨h.within_step .popFront, .refl _⟩
    · exact .refl b
  · exact .refl b

theorem within_settle (h : b.workQueue.WF) (r : StoreForwardCompletion) (w : WorkIdentity) (outcome : DownstreamOutcome) :
    Within b (b.settle r w outcome).2 := by
  have hclose := CompletionLedger.within_closePlanningAfterFailure b.completionLedger w
  have hpop : ∀ l : CompletionLedger, b.completionLedger.Within l →
      Within b (({ b.clearInFlight with completionLedger := (l.release w).2 } : StoreForwardBridge).popFrontIf w) := by
    intro l hl
    have hrel : Within b { b.clearInFlight with completionLedger := (l.release w).2 } :=
      ⟨.refl _, hl.trans (CompletionLedger.within_release l w)⟩
    refine hrel.trans (within_popFrontIf ?_ w)
    exact h
  unfold settle
  simp only
  by_cases hout : outcome ≠ .applied
  · simp only [hout, ne_eq, not_false_eq_true, if_true]
    split
    · have := hpop _ hclose
      exact ⟨this.queue, this.ledger⟩
    · exact ⟨.refl _, hclose⟩
  · simp only [if_neg hout]
    split
    · have := hpop _ (.refl _)
      exact ⟨this.queue, this.ledger⟩
    · exact ⟨.refl _, .refl _⟩

theorem within_completeWrite (h : b.workQueue.WF) (r : StoreForwardCompletion) (a : StoreForwardAction)
    (outcome : DownstreamOutcome) (session : SessionStateView) : Within b (b.completeWrite r a outcome session).2 := by
  unfold completeWrite
  split
  · exact .refl b
  simp only
  have hresolve := CompletionLedger.within_resolve b.completionLedger a.write ⟨a.write.identity, outcome⟩ session
  generalize b.completionLedger.resolve a.write ⟨a.write.identity, outcome⟩ session = resolution at hresolve ⊢
  have hb : Within b { b with completionLedger := resolution.2 } := ⟨.refl _, hresolve⟩
  split
  · split
    · obtain ⟨b₁, hb₁⟩ : ∃ b₁, ({ b with completionLedger := resolution.2 } : StoreForwardBridge).abandon b.inFlightWork = b₁ :=
        ⟨_, rfl⟩
      have habandon : Within b b₁ := by
        rw [← hb₁]
        exact ⟨.refl _, hresolve.trans (CompletionLedger.within_abandon _ _)⟩
      have hq : b₁.workQueue.WF := by
        rw [← hb₁]
        exact h
      have hpop := habandon.trans (within_popFrontIf hq b₁.inFlightWork)
      rw [hb₁]
      exact ⟨hpop.queue, hpop.ledger⟩
    · exact hb
  · refine hb.trans (within_settle ?_ _ _ _)
    exact h

theorem within_complete (h : b.workQueue.WF) (a : StoreForwardAction) (outcome : DownstreamOutcome)
    (session : SessionStateView) : Within b (b.complete a outcome session).2 := by
  unfold complete
  simp only
  split
  · exact .refl b
  split
  · exact .refl b
  split
  · exact .refl b
  split
  · exact ⟨.refl _, .refl _⟩
  · exact within_completeWrite h _ _ _ _

theorem within_retireFront (h : b.workQueue.WF) : Within b b.retireFront.2 := by
  unfold retireFront
  split
  · exact .refl b
  · exact ⟨h.within_step .popFront, CompletionLedger.within_abandon _ _⟩

theorem within_drainQueue (fuel : Nat) (h : b.workQueue.WF) : Within b (drainQueue fuel b) := by
  induction fuel generalizing b with
  | zero => exact .refl b
  | succ fuel ih =>
    unfold drainQueue
    split
    · exact .refl b
    · rename_i front _
      have hpop : Within b { b.abandon front.workIdentity with workQueue := b.workQueue.popFront.2 } :=
        ⟨h.within_step .popFront, CompletionLedger.within_abandon _ _⟩
      exact hpop.trans (ih (h.step .popFront))

/-- **Every call stays inside both arrays.** -/
theorem exec_within (h : b.Coherent) (c : Call) : Within b (b.exec c).2 := by
  obtain ⟨mem, op⟩ := c
  cases op with
  | admitWork work session ctx =>
    cases work with
    | coils work => exact within_admitWork h.queue work session ctx
    | holding work => exact within_admitWork h.queue work session ctx
  | nextAction => exact .refl b
  | admitAction a session polls n => exact within_admitAction h mem a session polls n
  | complete a outcome session => exact within_complete h.queue a outcome session
  | discardOneStaleWork session =>
    show Within b (b.discardOneStaleWork session).2.2
    unfold discardOneStaleWork
    split
    · exact .refl b
    split
    · exact .refl b
    split
    · exact .refl b
    · exact within_retireFront h.queue
  | abandonFront =>
    show Within b b.abandonFront.2.2
    unfold abandonFront
    split
    · exact .refl b
    split
    · exact .refl b
    · exact within_retireFront h.queue
  | reset =>
    show Within b b.reset.2
    unfold reset
    split
    · exact .refl b
    · have := within_drainQueue b.workQueue.size.toNat h.queue
      exact ⟨this.queue, this.ledger⟩

/-- A whole run does. -/
theorem run_within (h : b.Coherent) (calls : List Call) : Within b (b.run calls) :=
  (Machine.inv_final exec (P := fun s => s.Coherent ∧ Within b s)
    (fun _ c hs => ⟨exec_coherent hs.1 c, hs.2.trans (exec_within hs.1 c)⟩) ⟨h, .refl b⟩ calls).2

end StoreForwardBridge

end ModbusRTUBridge
