import ModbusRTUBridge.LogTrace
/-!
# The write trace refines direct planning

While the caller keeps a queued snapshot as it was, the writes issued of an instance are what a
fresh `begin` followed by repeated `next` plans for it: the slot's flattened cursor, rebuilt at
every preview and written back at every admission, is the planner's own.
-/

namespace ModbusRTUBridge

/-! ## Snapshots that are kept -/

/-- Two memories agree on the snapshot of a work. -/
def Ingress.SameCells : Ingress → Memory → Memory → Prop
  | .coils work, mem, mem' => ∀ j < work.count.toNat,
      mem.coil (work.snapshot.values.add j) = mem'.coil (work.snapshot.values.add j)
  | .holding work, mem, mem' => ∀ j < work.count.toNat,
      mem.holding (work.snapshot.values.add j) = mem'.holding (work.snapshot.values.add j)

instance : (work : Ingress) → (mem mem' : Memory) → Decidable (work.SameCells mem mem')
  | .coils work, mem, mem' => inferInstanceAs (Decidable (∀ j < work.count.toNat,
      mem.coil (work.snapshot.values.add j) = mem'.coil (work.snapshot.values.add j)))
  | .holding work, mem, mem' => inferInstanceAs (Decidable (∀ j < work.count.toNat,
      mem.holding (work.snapshot.values.add j) = mem'.holding (work.snapshot.values.add j)))

/-- The caller keeps the snapshots of all queued works as they were at admission. -/
def SnapshotsKept (g : Log) (c : Call) : Prop := ∀ i ∈ g.queued, i.work.SameCells c.memory i.memory

instance (g : Log) (c : Call) : Decidable (SnapshotsKept g c) :=
  inferInstanceAs (Decidable (∀ i ∈ g.queued, i.work.SameCells c.memory i.memory))

namespace StoreForwardBridge

/-- Every call of the run finds the queued snapshots as they were. -/
abbrev KeepsSnapshots (b : StoreForwardBridge) (calls : List Call) : Prop :=
  Machine.Meets exec (fun _ => SnapshotsKept) Log.observe b {} calls

end StoreForwardBridge

/-! ## The planner's own cursor -/

/-- The plan of a work, for the request sequences given. -/
def Ingress.planned (mem : Memory) (p : ForwardPlanner) (sequences : List UInt32) : Ingress → List PlannedWriteRequest
  | .coils work => p.planned mem work sequences
  | .holding work => p.planned mem work sequences

/-- The request sequences a list of fragments was given. -/
def sequencesOf (ws : List PlannedWriteRequest) : List UInt32 := ws.map (·.identity.requestSequence)

/-- The slot past the fragments `ws`. -/
def StoreForwardWorkSlot.past (s : StoreForwardWorkSlot) (ws : List PlannedWriteRequest) : StoreForwardWorkSlot :=
  ws.foldl (fun s w => s.advance w.quantity) s

/-- Driving the planner with the sequences of the fragments `ws` hands out just these, and leaves
the cursor that slot `s` stands at past them. -/
def Ingress.Replays (mem : Memory) (p : ForwardPlanner) (s : StoreForwardWorkSlot) (ws : List PlannedWriteRequest) :
    Ingress → Prop
  | .coils work => ForwardPlanner.replay mem p (ForwardPlanner.startCursor work) (sequencesOf ws) =
      (ws, (s.past ws).asCursor Bool)
  | .holding work => ForwardPlanner.replay mem p (ForwardPlanner.startCursor work) (sequencesOf ws) =
      (ws, (s.past ws).asCursor UInt16)

@[simp] theorem StoreForwardWorkSlot.past_snoc (s : StoreForwardWorkSlot) (ws : List PlannedWriteRequest)
    (w : PlannedWriteRequest) : s.past (ws ++ [w]) = (s.past ws).advance w.quantity := by
  simp [StoreForwardWorkSlot.past]

theorem Sent.past_eq {p : ForwardPlanner} {s₀ s : StoreForwardWorkSlot} {ws : List PlannedWriteRequest}
    (h : Sent p s₀ ws s) : s = s₀.past ws := by
  induction h with
  | none => rfl
  | next _ _ _ _ _ ih => rw [StoreForwardWorkSlot.past_snoc, ← ih]

section
variable {Value : Type} [AppliedPayload Value] {p : ForwardPlanner} {mem : Memory} {s s' : StoreForwardWorkSlot}
  {w : PlannedWriteRequest} {sequence : UInt32}

/-- `next` keeps the work of its cursor. -/
theorem ForwardPlanner.next_work (p : ForwardPlanner) (mem : Memory) (c : ForwardCursor Value) (sequence : UInt32) :
    (p.next mem c sequence).2.1.work = c.work := by
  rw [ForwardPlanner.next_eq]
  repeat' split
  all_goals rfl

omit [AppliedPayload Value] in
/-- Writing a cursor back and rebuilding it loses nothing. -/
theorem StoreForwardWorkSlot.asCursor_updateFrom {c : ForwardCursor Value} (h : c.work = (s.asCursor Value).work) :
    (s.updateFrom c).asCursor Value = c := by
  obtain ⟨work, _, _, _, _, _⟩ := c
  subst h
  rfl

/-- The slot's next fragment is the planner's on the rebuilt cursor. -/
theorem StoreForwardWorkSlot.next_cursor
    (h : p.next mem (s.asCursor Value) sequence =
      (.planned, (p.next mem (s.asCursor Value) sequence).2.1, w))
    (hs : s' = s.updateFrom (p.next mem (s.asCursor Value) sequence).2.1) :
    p.next mem (s.asCursor Value) sequence = (.planned, s'.asCursor Value, w) := by
  rw [hs, asCursor_updateFrom (ForwardPlanner.next_work _ _ _ _)]
  exact h

theorem StoreForwardWorkSlot.next_coils (ht : s.table = .coils) (hn : s.next mem p sequence = (.planned, s', w)) :
    p.next mem (s.asCursor Bool) sequence = (.planned, s'.asCursor Bool, w) := by
  simp only [StoreForwardWorkSlot.next, ht, Prod.mk.injEq] at hn
  obtain ⟨h1, h2, h3⟩ := hn
  exact next_cursor (Prod.ext h1 (Prod.ext rfl h3)) h2.symm

theorem StoreForwardWorkSlot.next_holding (ht : s.table = .holdingRegisters)
    (hn : s.next mem p sequence = (.planned, s', w)) :
    p.next mem (s.asCursor UInt16) sequence = (.planned, s'.asCursor UInt16, w) := by
  simp only [StoreForwardWorkSlot.next, ht, Prod.mk.injEq] at hn
  obtain ⟨h1, h2, h3⟩ := hn
  exact next_cursor (Prod.ext h1 (Prod.ext rfl h3)) h2.symm

end

section
variable {p : ForwardPlanner} {work : Ingress} {s : StoreForwardWorkSlot} {ws : List PlannedWriteRequest}
  {w : PlannedWriteRequest} {mem mem' : Memory}

/-- Nothing issued, nothing replayed. -/
theorem Ingress.replays_nil (hp : p.RoutesOk) (hready : work.beginStatus p = .ready) (ctx : Ptr) :
    work.Replays mem p (work.slot ctx) [] := by
  cases work with
  | coils work =>
    have hw := ForwardPlanner.begin_ready hp hready
    exact Prod.ext rfl (StoreForwardWorkSlot.asCursor_ofWork ctx hw.snapshot_count).symm
  | holding work =>
    have hw := ForwardPlanner.begin_ready hp hready
    exact Prod.ext rfl (StoreForwardWorkSlot.asCursor_ofWork ctx hw.snapshot_count).symm

/-- A slot of the work plans the same in a memory that agrees on the snapshot. -/
theorem SameWork.next_congr {ctx : Ptr} (h : SameWork s (work.slot ctx)) (hok : s.Ok p) (hcells : work.SameCells mem mem')
    (sequence : UInt32) : s.next mem p sequence = s.next mem' p sequence := by
  have hsnapshot := h.snapshot
  have hquantity := h.quantity
  have htable := h.table
  simp only [Ingress.slot_snapshot, Ingress.slot_quantity, Ingress.slot_table] at hsnapshot hquantity htable
  apply StoreForwardWorkSlot.next_congr mem mem' hok
  intro j hj
  rw [hquantity] at hj
  rw [hsnapshot, htable]
  cases work with
  | coils work => exact ⟨fun _ => hcells j hj, nofun⟩
  | holding work => exact ⟨nofun, fun _ => hcells j hj⟩

/-- **One more fragment**: what the facade takes off the slot, the planner hands out next. -/
theorem Ingress.Replays.snoc {ctx : Ptr} (h : work.Replays mem' p (work.slot ctx) ws) (hok : s.Ok p)
    (hs : Sent p (work.slot ctx) ws s) (hcells : work.SameCells mem mem')
    (hn : s.next mem p w.identity.requestSequence = (.planned, s.advance w.quantity, w)) :
    work.Replays mem' p (work.slot ctx) (ws ++ [w]) := by
  rw [hs.sameWork.next_congr hok hcells, hs.past_eq] at hn
  have htable := hs.sameWork.table
  rw [hs.past_eq] at htable
  have hlen : ws.length = (sequencesOf ws).length := by simp [sequencesOf]
  have hseq : sequencesOf (ws ++ [w]) = sequencesOf ws ++ [w.identity.requestSequence] := by simp [sequencesOf]
  cases work with
  | coils work =>
    show ForwardPlanner.replay mem' p _ (sequencesOf (ws ++ [w])) = _
    rw [hseq, StoreForwardWorkSlot.past_snoc]
    exact ForwardPlanner.replay_snoc h hlen (StoreForwardWorkSlot.next_coils htable hn)
  | holding work =>
    show ForwardPlanner.replay mem' p _ (sequencesOf (ws ++ [w])) = _
    rw [hseq, StoreForwardWorkSlot.past_snoc]
    exact ForwardPlanner.replay_snoc h hlen (StoreForwardWorkSlot.next_holding htable hn)

/-- What is replayed is the plan. -/
theorem Ingress.Replays.planned_eq (h : work.Replays mem p s ws) (hready : work.beginStatus p = .ready) :
    ws = work.planned mem p (sequencesOf ws) := by
  cases work with
  | coils work =>
    show ws = (ForwardPlanner.replay mem p (p.begin work).2 _).1
    rw [ForwardPlanner.begin_status_cursor, if_pos (show (p.begin work).1 = .ready from hready), h]
  | holding work =>
    show ws = (ForwardPlanner.replay mem p (p.begin work).2 _).1
    rw [ForwardPlanner.begin_status_cursor, if_pos (show (p.begin work).1 = .ready from hready), h]

theorem Ingress.planned_prefix (mem : Memory) (p : ForwardPlanner) (work : Ingress) (sequences later : List UInt32) :
    work.planned mem p sequences <+: work.planned mem p (sequences ++ later) := by
  cases work <;> exact ForwardPlanner.replay_prefix _ _ _ _ _

end

/-! ## Every run -/

open StoreForwardBridge

variable {p : ForwardPlanner} {b b' : StoreForwardBridge} {g : Log} {c : Call} {r : Res} {w : PlannedWriteRequest}

/-- An issued write is the next fragment of the front work, with nothing outstanding before it. -/
theorem StoreForwardBridge.Step.issued (hs : Step b c r b') (h : issuedWrite c r = some w) :
    ∃ s rest, b.queue = s :: rest ∧
      s.next c.memory b.forwardPlanner w.identity.requestSequence = (.planned, s.advance w.quantity, w) := by
  cases hs with
  | refused hr hq =>
    exfalso
    obtain ⟨mem, op⟩ := c
    cases r <;> cases op <;> simp_all [issuedWrite, Res.effective]
  | @pollAdmitted mem a session polls n i hf hp =>
    have hk : a.kind = .poll := by rw [hp.shape]
    simp [issuedWrite, hk] at h
  | @writeAdmitted mem a session polls n s rest hf hw hq =>
    have hk : a.kind = .forwardWrite := by rw [hw.shape]
    simp only [issuedWrite, hk, and_self, if_true, Option.some.injEq] at h
    subst h
    have hseq : a.write.identity.requestSequence = a.sequence := by rw [hw.takes.identity]
    exact ⟨s, rest, hq, hseq ▸ hw.next⟩
  | _ => simp [issuedWrite] at h

/-- The fragments issued of an instance, replayed. -/
def Instance.Replayed (p : ForwardPlanner) (i : Instance) : Prop := i.work.Replays i.memory p i.slot i.issued

theorem Tracks.replayed (h : Tracks p b g) (hr : ∀ i ∈ g.instances, i.Replayed p) (hkept : SnapshotsKept g c)
    (hs : Step b c r b') : ∀ i ∈ (g.observe c r).instances, i.Replayed p := by
  intro j hj
  have hadm := (h.step hs).admitted j hj
  rw [Log.instances_observe] at hj
  rcases List.mem_append.1 hj with hj | hj
  · rcases Log.mem_instances_note hj with hj | ⟨i, hi, rfl⟩
    · exact hr j hj
    have hqueued : i ∈ g.queued := List.mem_of_mem_head? hi
    have hri := hr i (List.mem_append_right _ hqueued)
    show i.work.Replays i.memory p i.slot (i.issued ++ (issuedWrite c r).toList)
    cases hw : issuedWrite c r with
    | none =>
      rw [Option.toList_none, List.append_nil]
      exact hri
    | some w =>
      obtain ⟨s, rest, hq, hn⟩ := hs.issued hw
      obtain ⟨i', is, hg, hprogress, _⟩ := h.front hq
      obtain rfl : i' = i := by rw [hg] at hi; exact Option.some.inj hi
      rw [h.planner] at hn
      exact Ingress.Replays.snoc hri (h.slot_ok hq) hprogress.sent (hkept _ hqueued) hn
  · cases ha : admittedInstance c r with
    | none => rw [ha] at hj; cases hj
    | some i =>
      rw [ha, Option.toList_some, List.mem_singleton] at hj
      subst hj
      unfold Instance.Replayed
      rw [(admittedInstance_origin ha).2.1]
      exact Ingress.replays_nil (h.planner ▸ h.coherent.routes) hadm.ready _

theorem log_replayed (hb : b.Deployed) {calls : List Call} (hm : b.KeepsSnapshots calls) :
    ∀ i ∈ (b.log calls).instances, i.Replayed b.forwardPlanner :=
  (Machine.simulates_final_of exec (R := fun s g => Tracks b.forwardPlanner s g ∧ ∀ i ∈ g.instances, i.Replayed b.forwardPlanner)
    (fun _ _ c hkept ⟨h, hr⟩ =>
      have hs := exec_step h.coherent c
      ⟨h.step hs, h.replayed hr hkept hs⟩)
    ⟨log_tracks hb [], fun _ hi => by cases hi⟩ hm).2

/-- What direct planning promises of an instance. -/
structure Instance.Refines (p : ForwardPlanner) (i : Instance) : Prop where
  ready : i.work.beginStatus p = .ready
  /-- The issued fragments are the plan, as far as it was asked for. -/
  planned : i.issued = i.work.planned i.memory p (sequencesOf i.issued)
  /-- Whatever else is asked for comes after them. -/
  initial : ∀ later, i.issued <+: i.work.planned i.memory p (sequencesOf i.issued ++ later)
  /-- No fragment before its predecessor was applied. -/
  applied : ∀ k, k + 1 < i.issued.length → ∃ x, i.answers[k]? = some x ∧ i.issued[k]? = some x.write ∧
    x.outcome = .applied ∧ x.result.status = .completed

/-- Every fragment but the last was answered, and applied. -/
theorem Tracks.applied (h : Tracks p b g) {i : Instance} (hi : i ∈ g.instances) {k : Nat} (hk : k + 1 < i.issued.length) :
    ∃ x, i.answers[k]? = some x ∧ i.issued[k]? = some x.write ∧ x.outcome = .applied ∧ x.result.status = .completed := by
  obtain ⟨before, s, o, tail, hp, hans, _⟩ := h.stands hi
  have hissued : i.issued = before.map (·.write) ++ (o.map (·.write)).toList := hp.issued
  have hlt : k < before.length := by
    have hlen := congrArg List.length hissued
    have hone : (o.map (·.write)).toList.length ≤ 1 := by cases o <;> simp
    rw [List.length_append, List.length_map] at hlen
    omega
  have hx := hp.applied before[k] (List.getElem_mem hlt)
  refine ⟨before[k], ?_, ?_, hx.outcome, hx.status⟩
  · rw [← List.getElem?_eq_getElem hlt]
    rw [hans, List.getElem?_append_left hlt]
  · rw [hissued, List.getElem?_append_left (by simpa using hlt)]
    simp [hlt]

/-- **The write trace refines direct planning.** In every run the issued writes are grouped by
instance, in the order of admission; those of one instance are an initial piece of its plan;
and no fragment is issued before the one ahead of it was completed as applied. -/
theorem writes_refine_plan (hb : b.Deployed) (calls : List Call) (hm : b.KeepsSnapshots calls) :
    (b.log calls).instances.map Instance.origin =
      ((b.history calls).flatMap fun e => (admittedInstance e.input e.output).toList) ∧
    (b.log calls).instances.flatMap (·.issued) =
      ((b.history calls).flatMap fun e => (issuedWrite e.input e.output).toList) ∧
    (b.log calls).instances.flatMap (·.answers) =
      ((b.history calls).flatMap fun e => (writeAnswer e.input e.output).toList) ∧
    ∀ i ∈ (b.log calls).instances, i.Refines b.forwardPlanner := by
  refine ⟨log_admissions b calls, log_issued hb calls, log_answers hb calls, ?_⟩
  intro i hi
  have h := log_tracks hb calls
  have hready := (h.admitted i hi).ready
  have hexact := Ingress.Replays.planned_eq (log_replayed hb hm i hi) hready
  refine ⟨hready, hexact, ?_, fun k hk => h.applied hi hk⟩
  intro later
  have hinitial := i.work.planned_prefix i.memory b.forwardPlanner (sequencesOf i.issued) later
  rwa [← hexact] at hinitial

/-- Both works of the test, three fragments in all. -/
theorem writes_refine_plan_test :
    ((testBridge.log (testCalls 3)).instances.flatMap (·.issued)).length = 3 ∧
    ∀ i ∈ (testBridge.log (testCalls 3)).instances, i.Refines testBridge.forwardPlanner :=
  have h := writes_refine_plan testBridge_deployed (testCalls 3) (by decide +kernel)
  ⟨by decide +kernel, h.2.2.2⟩

end ModbusRTUBridge
