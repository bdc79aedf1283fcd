import ModbusRTUBridge.Accounting
import ModbusRTUBridge.LogTrace
/-!
# Snapshots are handed back once

An instance is queued or released, and each release announces itself in one result. Whatever the
facade proposes, retains or has on record in the ledger borrows from an instance that is still
queued, so a snapshot that was handed back is not looked at again.
-/

namespace ModbusRTUBridge

/-- `w` is a slice of the instance's snapshot, under the instance's identity. -/
structure Borrows (i : Instance) (w : PlannedWriteRequest) : Prop where
  identity : w.identity.work = i.work.identity
  table : w.table = i.work.table
  slice : ∃ offset, offset < i.work.count.toNat ∧ offset + w.quantity.toNat ≤ i.work.count.toNat ∧
    w.coilValues = (if i.work.table = .coils then i.work.snapshot.add offset else .null) ∧
    w.holdingValues = (if i.work.table = .coils then .null else i.work.snapshot.add offset)

/-- So is the action that writes it, with the instance's context. -/
structure BorrowsAction (i : Instance) (a : StoreForwardAction) : Prop where
  write : Borrows i a.write
  context : a.workContext = i.context
  downstream : ∃ ctx, a.downstream = downstreamRequestFor a.write ctx

/-- The release speaks of the instance. -/
def HandsBack (i : Instance) : Release → Prop
  | .completed r => r.workRetired = true ∧ r.workContext = i.context
  | .retired r => r = ⟨i.work.identity, i.work.table, i.context⟩
  | .reset => True

/-- The releases a call announces. -/
def releases (b : StoreForwardBridge) : Res → List Release
  | .reset done => if done then List.replicate b.queuedWork.toNat .reset else []
  | r => (frontRelease r).toList

section
variable {p : ForwardPlanner} {i : Instance} {s s₀ : StoreForwardWorkSlot} {w : PlannedWriteRequest} {sequence : UInt32}
  {a : StoreForwardAction}

theorem Borrows.of_takes (hsame : SameWork s i.slot) (hok : s.Ok p) (ht : s.Takes w sequence) : Borrows i w := by
  have hsplit := hok.split
  have hpos := ht.pos
  have hle := ht.le_remaining
  have hquantity := hsame.quantity
  have htable := hsame.table
  have hsnapshot := hsame.snapshot
  simp only [Instance.slot, Ingress.slot_quantity, Ingress.slot_table, Ingress.slot_snapshot] at hquantity htable hsnapshot
  rw [hquantity] at hsplit
  refine ⟨?_, ht.table.trans htable, s.sourceOffset.toNat, by omega, by omega, ?_, ?_⟩
  · rw [ht.identity]
    exact hsame.identity.trans (Ingress.slot_workIdentity _ _)
  · rw [ht.coilValues, htable, hsnapshot]
  · rw [ht.holdingValues, htable, hsnapshot]

/-- The outstanding action borrows from the instance in front. -/
theorem BorrowsAction.of_issued (hsame : SameWork s i.slot) (h : s.Issued p a) : BorrowsAction i a := by
  have hctx := h.context_eq.trans hsame.context
  obtain ⟨s', hok, _, ht, _, rfl, _, _, hdown⟩ := h
  have hsame' : SameWork s' i.slot :=
    ⟨hsame.table, hsame.identity, hsame.start, hsame.quantity, hsame.delivery, hsame.snapshot, hsame.context⟩
  exact ⟨.of_takes hsame' hok ht, hctx.trans (Ingress.slot_userContext _ _), hdown⟩

theorem Closed.handsBack {how : Release} (h : Closed p i how) : HandsBack i how := by
  cases how with
  | completed r =>
    obtain ⟨before, s, a, outcome, hp, ha, _, hr⟩ := h
    have hctx : a.workContext = i.context :=
      (ha.context_eq.trans hp.sent.sameWork.context).trans (Ingress.slot_userContext _ _)
    rcases hr with ⟨rfl, hret⟩ | rfl
    · exact ⟨hret, hctx⟩
    · exact ⟨rfl, hctx⟩
  | retired r =>
    obtain ⟨s, hp, rfl⟩ := h
    have hsame := hp.sent.sameWork
    have hid := hsame.identity
    have htable := hsame.table
    have hctx := hsame.context
    simp only [Instance.slot, Ingress.slot_workIdentity, Ingress.slot_table, Ingress.slot_userContext] at hid htable hctx
    simp [HandsBack, StoreForwardBridge.retirementOf, hid, htable, hctx]
  | reset => trivial

end

open StoreForwardBridge

variable {p : ForwardPlanner} {b b' : StoreForwardBridge} {g : Log} {c : Call} {r : Res}

theorem Tracks.queuedWork_eq (h : Tracks p b g) : b.queuedWork.toNat = g.queued.length := by
  rw [h.queued.length_eq]
  exact (FixedRingQueue.length_toList _).symm

/-- A released front was queued. -/
theorem StoreForwardBridge.Step.release_queue (hs : Step b c r b') (h : frontRelease r ≠ none) : b.queue ≠ [] := by
  cases hs with
  | @refused c r hr hq =>
    exfalso
    cases r with
    | completion r => simp [frontRelease, (hq r rfl).2] at h
    | retirement status r => simp_all [frontRelease, Res.effective]
    | _ => exact h rfl
  | settled _ _ _ hq => rw [hq]; simp
  | stale _ _ hq => rw [hq]; simp
  | dropped _ _ hq => rw [hq]; simp
  | pollCompleted => exact absurd rfl h
  | _ => exact absurd rfl h

/-- A call adds its releases to those of the log. -/
theorem Tracks.releases (h : Tracks p b g) (hs : Step b c r b') :
    (g.observe c r).released.map Prod.snd = g.released.map Prod.snd ++ releases b r := by
  by_cases hr : r = .reset true
  · subst hr
    show (g.released ++ g.queued.map (·, Release.reset)).map Prod.snd = _
    rw [List.map_append, List.map_map]
    simp only [releases, if_true, h.queuedWork_eq]
    congr 1
    exact List.map_const'
  · have hrel : ModbusRTUBridge.releases b r = (frontRelease r).toList := by
      cases r with
      | reset done => cases done <;> first | exact absurd rfl hr | rfl
      | _ => rfl
    rw [Log.observe_eq hr, hrel]
    cases hf : frontRelease r with
    | none =>
      show g.released.map Prod.snd = _
      simp
    | some how =>
      cases hq : b.queue with
      | nil => exact absurd hq (hs.release_queue (by rw [hf]; simp))
      | cons s rest =>
        obtain ⟨i, is, hg, _⟩ := h.front hq
        have hj : ((g.enqueue (admittedInstance c r)).note (issuedWrite c r) (writeAnswer c r)).queued =
            i.noted (issuedWrite c r) (writeAnswer c r) :: (is ++ (admittedInstance c r).toList) := by
          simp [Log.note, Log.enqueue, hg, Instance.noted]
        rw [Log.release_some hj]
        simp [Log.note, Log.enqueue]

/-- **Releases**: each result that announces one released one instance. -/
theorem log_releases (hb : b.Deployed) (calls : List Call) :
    (b.log calls).released.map Prod.snd = (b.history calls).flatMap fun e => releases e.before e.output :=
  Machine.observe_collect (R := Tracks b.forwardPlanner) (φ := fun g : Log => g.released.map Prod.snd)
    (w := fun b _ r => releases b r) (fun _ _ c h => h.step (exec_step h.coherent c))
    (fun _ _ c h => h.releases (exec_step h.coherent c)) (log_tracks hb []) calls

/-- What is in front in the log stands in front of the queue. -/
theorem Tracks.front_same (h : Tracks p b g) {s : StoreForwardWorkSlot} (hs : b.queue.head? = some s) :
    ∃ i ∈ g.queued, SameWork s i.slot := by
  obtain ⟨rest, hq⟩ : ∃ rest, b.queue = s :: rest := by
    cases hq : b.queue with
    | nil => rw [hq] at hs; cases hs
    | cons f rest => rw [hq] at hs; cases hs; exact ⟨rest, rfl⟩
  obtain ⟨i, is, hg, hp, _⟩ := h.front hq
  exact ⟨i, by rw [hg]; exact List.mem_cons_self, hp.sent.sameWork⟩

namespace StoreForwardBridge

theorem previewPoll_action (polls : Storage PollCandidate) (n : UInt16) (a : StoreForwardAction) :
    (b.previewPoll polls n a).status = .ready ∨ (b.previewPoll polls n a).action = {} := by
  unfold previewPoll
  simp only
  repeat' split
  all_goals first | exact Or.inl rfl | exact Or.inr rfl

theorem previewWrite_action (mem : Memory) (s : StoreForwardWorkSlot) (a : StoreForwardAction) (ctx : Ptr) :
    (b.previewWrite mem s a ctx).status = .ready ∨ (b.previewWrite mem s a ctx).action = {} := by
  unfold previewWrite
  simp only
  repeat' split
  all_goals first | exact Or.inl rfl | exact Or.inr rfl

/-- A preview that is not ready carries no action. -/
theorem previewAction_action (mem : Memory) (session : SessionStateView) (now : UInt32) (polls : Storage PollCandidate)
    (n : UInt16) (ctx : Ptr) :
    (b.previewAction mem session now polls n ctx).status = .ready ∨
    (b.previewAction mem session now polls n ctx).action = {} := by
  unfold previewAction
  simp only
  repeat' split
  all_goals first
    | exact Or.inr rfl
    | exact previewPoll_action _ _ _
    | exact previewWrite_action _ _ _ _

end StoreForwardBridge

/-- A previewed write borrows from a queued instance. -/
theorem Tracks.preview_borrows (h : Tracks p b g) {mem : Memory} {session : SessionStateView} {now : UInt32}
    {polls : Storage PollCandidate} {n : UInt16} {ctx : Ptr}
    (hk : (b.nextAction mem session now polls n ctx).2.kind = .forwardWrite) :
    ∃ i ∈ g.queued, BorrowsAction i (b.nextAction mem session now polls n ctx).2 := by
  rcases previewAction_cases h.coherent mem session now polls n ctx with ⟨hbad, _⟩ | ⟨_, _, i, hp⟩ | ⟨_, _, s, hw, _⟩
  · have hnone := (previewAction_action mem session now polls n ctx).resolve_left hbad
    rw [show (b.nextAction mem session now polls n ctx).2 = {} from hnone] at hk
    cases hk
  · have hpoll : (b.nextAction mem session now polls n ctx).2.kind = .poll := congrArg StoreForwardAction.kind hp.shape
    rw [hpoll] at hk
    cases hk
  · obtain ⟨i, hi, hsame⟩ := h.front_same hw.head
    have hok := h.coherent.filed.slots s (List.mem_of_mem_head? hw.head)
    have hctx := congrArg StoreForwardAction.workContext hw.shape
    exact ⟨i, hi, .of_takes hsame hok hw.takes,
      (hctx.trans hsame.context).trans (Ingress.slot_userContext _ _), _, congrArg StoreForwardAction.downstream hw.shape⟩

/-- So does a retained one. -/
theorem Tracks.inFlight_borrows (h : Tracks p b g) {a : StoreForwardAction} (ho : b.outstanding = some a) :
    ∃ i ∈ g.queued, BorrowsAction i a := by
  obtain ⟨s, rest, hq, hissued, _⟩ := h.coherent.front_of_outstanding ho
  obtain ⟨i, hi, hsame⟩ := h.front_same (s := s) (by rw [hq]; rfl)
  exact ⟨i, hi, .of_issued hsame hissued⟩

/-- And so does every request outstanding in the ledger. -/
theorem Tracks.ledger_borrows (h : Tracks p b g) {k : Nat} (hk : k < b.completionLedger.capacity.toNat)
    (hout : (b.completionLedger.slot k).outstandingRequests ≠ 0) :
    ∃ i ∈ g.queued, Borrows i (b.completionLedger.slot k).issuedRequest := by
  by_contra hno
  refine hout (outstanding_zero h.coherent hk fun a s rest ho hq hacc => hno ?_)
  obtain ⟨hissued, hrec, _⟩ := h.coherent.outstanding_front ho hq
  obtain ⟨i, hi, hsame⟩ := h.front_same (s := s) (by rw [hq]; rfl)
  have hslot := Option.some.inj ((hacc.lookup h.coherent).symm.trans hrec)
  rw [hslot]
  exact ⟨i, hi, (BorrowsAction.of_issued hsame hissued).write⟩

/-- **Snapshots are handed back exactly once and not used afterwards.** The instances are the
admissions of the run; each is queued or released, and the releases are those the results
announced, one by one; the queue holds the admissions that were not released; and every write
that is proposed, retained or outstanding borrows from an instance that is still queued. -/
theorem snapshots_returned_once (hb : b.Deployed) (calls : List Call) :
    ((b.log calls).released.map Prod.fst ++ (b.log calls).queued).map Instance.origin =
      ((b.history calls).flatMap fun e => (admittedInstance e.input e.output).toList) ∧
    (b.log calls).released.map Prod.snd = ((b.history calls).flatMap fun e => releases e.before e.output) ∧
    (∀ x ∈ (b.log calls).released, HandsBack x.1 x.2) ∧
    (b.run calls).queuedWork.toNat + ((b.history calls).flatMap fun e => releases e.before e.output).length =
      ((b.history calls).flatMap fun e => (admittedInstance e.input e.output).toList).length ∧
    (b.run calls).queuedWork.toNat = (b.log calls).queued.length ∧
    (∀ mem session now polls n ctx, ((b.run calls).nextAction mem session now polls n ctx).2.kind = .forwardWrite →
      ∃ i ∈ (b.log calls).queued, BorrowsAction i ((b.run calls).nextAction mem session now polls n ctx).2) ∧
    ((b.run calls).inFlight = true → (b.run calls).inFlightAction.kind = .forwardWrite →
      ∃ i ∈ (b.log calls).queued, BorrowsAction i (b.run calls).inFlightAction) ∧
    (∀ k < (b.run calls).completionLedger.capacity.toNat,
      ((b.run calls).completionLedger.slot k).outstandingRequests ≠ 0 →
      ∃ i ∈ (b.log calls).queued, Borrows i ((b.run calls).completionLedger.slot k).issuedRequest) := by
  have h := log_tracks hb calls
  have hadmitted := log_admissions b calls
  have hreleased := log_releases hb calls
  refine ⟨hadmitted, hreleased, fun x hx => (h.released x hx).handsBack, ?_, h.queuedWork_eq,
    fun mem session now polls n ctx => h.preview_borrows, fun hf hk => ?_, fun k hk hout => h.ledger_borrows hk hout⟩
  · have h1 := congrArg List.length hadmitted
    have h2 := congrArg List.length hreleased
    rw [List.length_map, Log.instances, List.length_append, List.length_map] at h1
    rw [List.length_map] at h2
    rw [h.queuedWork_eq]
    omega
  · exact h.inFlight_borrows (outstanding_eq_some.2 ⟨hf, rfl, hk⟩)

/-- With one fragment of the first work in flight, the action borrows from a queued instance; the
whole test hands both snapshots back and keeps none. -/
theorem snapshots_returned_once_test :
    (∃ i ∈ (testBridge.log ((testCalls 1).take 3)).queued,
      BorrowsAction i (testBridge.run ((testCalls 1).take 3)).inFlightAction) ∧
    (testBridge.run (testCalls 3)).queuedWork.toNat = (testBridge.log (testCalls 3)).queued.length ∧
    (testBridge.run (testCalls 3)).queuedWork = 0 ∧
    (testBridge.log (testCalls 3)).released.map (fun x => (x.1.work.identity, x.1.context)) =
      [(⟨1, 9⟩, ⟨3, 0⟩), (⟨2, 9⟩, .null)] ∧
    ∀ x ∈ (testBridge.log (testCalls 3)).released, HandsBack x.1 x.2 := by
  obtain ⟨_, _, hback, _, hqueued, _⟩ := snapshots_returned_once testBridge_deployed (testCalls 3)
  obtain ⟨_, _, _, _, _, _, hretained, _⟩ := snapshots_returned_once testBridge_deployed ((testCalls 1).take 3)
  exact ⟨hretained (by decide +kernel) (by decide +kernel), hqueued, by decide +kernel, by decide +kernel, hback⟩

end ModbusRTUBridge
