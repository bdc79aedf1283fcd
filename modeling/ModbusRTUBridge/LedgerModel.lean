import ModbusRTUBridge.LedgerRecord
import ModbusRTUBridge.Lib.SlotCount
/-!
# The ledger refines a bounded map

`WorkMap` says what the ledger is for: a partial map from work identities to records, with room
for `capacity` of them. Its operations are map operations; nothing in it is an index, a scan or a
counter. `CompletionLedger.step` is the ledger's own, and answers every sequence of calls alike.
-/

namespace ModbusRTUBridge

inductive LedgerCall where
  | reserve (work : WorkIdentity) (delivery : IngressDelivery)
  | recordIssued (request : PlannedWriteRequest)
  | closePlanningAfterFailure (work : WorkIdentity)
  | resolve (expected : PlannedWriteRequest) (observed : CompletionRecord) (session : SessionStateView)
  | summary (work : WorkIdentity)
  | release (work : WorkIdentity)
  | abandon (work : WorkIdentity)
  | abandonGeneration (generation : UInt16)
  | abandonNotCurrent (session : SessionStateView)
  | clear

inductive LedgerResult where
  | reserve (status : LedgerReserveStatus)
  | recordIssued (status : LedgerIssueStatus)
  | closePlanningAfterFailure (closed : Bool)
  | resolve (resolution : LedgerResolution)
  | summary (found : Bool) (summary : WorkCompletionSummary)
  | release (status : LedgerReleaseStatus)
  | abandon (found : Bool)
  | removed (count : Nat)
  | clear
deriving DecidableEq

/-- The identity a call is addressed to. -/
def LedgerCall.addressee : LedgerCall → Option WorkIdentity
  | .reserve work _ | .closePlanningAfterFailure work | .summary work | .release work | .abandon work => some work
  | .recordIssued request | .resolve request _ _ => some request.identity.work
  | .abandonGeneration _ | .abandonNotCurrent _ | .clear => none

/-- One public call of the ledger. -/
def CompletionLedger.step (l : CompletionLedger) : LedgerCall → LedgerResult × CompletionLedger
  | .reserve work delivery => (.reserve (l.reserve work delivery).1, (l.reserve work delivery).2)
  | .recordIssued request => (.recordIssued (l.recordIssued request).1, (l.recordIssued request).2)
  | .closePlanningAfterFailure work =>
    (.closePlanningAfterFailure (l.closePlanningAfterFailure work).1, (l.closePlanningAfterFailure work).2)
  | .resolve expected observed session =>
    (.resolve (l.resolve expected observed session).1, (l.resolve expected observed session).2)
  | .summary work => (.summary (l.summary work).1 (l.summary work).2, l)
  | .release work => (.release (l.release work).1, (l.release work).2)
  | .abandon work => (.abandon (l.abandon work).1, (l.abandon work).2)
  | .abandonGeneration generation => (.removed (l.abandonGeneration generation).1.toNat, (l.abandonGeneration generation).2)
  | .abandonNotCurrent session => (.removed (l.abandonNotCurrent session).1.toNat, (l.abandonNotCurrent session).2)
  | .clear => (.clear, l.clear)

/-! ## The map -/

structure WorkMap where
  capacity : Nat
  records : WorkIdentity → Option CompletionLedgerSlot

namespace WorkMap

def empty (capacity : Nat) : WorkMap := ⟨capacity, fun _ => none⟩

/-- The works on file. -/
def keys (m : WorkMap) : Set WorkIdentity := {w | (m.records w).isSome = true}

def set (m : WorkMap) (work : WorkIdentity) (record : CompletionLedgerSlot) : WorkMap :=
  { m with records := fun w => if w = work then some record else m.records w }

def erase (m : WorkMap) (work : WorkIdentity) : WorkMap :=
  { m with records := fun w => if w = work then none else m.records w }

/-- The works on file that meet a test. -/
def meeting (m : WorkMap) (test : WorkIdentity → Bool) : Set WorkIdentity := {w ∈ m.keys | test w = true}

/-- Forgets them. -/
def forget (m : WorkMap) (test : WorkIdentity → Bool) : WorkMap :=
  { m with records := fun w => if test w then none else m.records w }

/-- What each call means. -/
noncomputable def step (m : WorkMap) : LedgerCall → LedgerResult × WorkMap
  | .reserve work delivery =>
    if !work.valid ∨ !isAccepted delivery then (.reserve .invalidWork, m)
    else if (m.records work).isSome then (.reserve .duplicateWork, m)
    else if m.keys.ncard < m.capacity then
      (.reserve .reserved, m.set work (CompletionLedger.reservedSlot work delivery))
    else (.reserve .full, m)
  | .recordIssued request =>
    if !request.identity.valid ∨ !isAccepted request.delivery then (.recordIssued .invalidRequest, m)
    else
      match m.records request.identity.work with
      | none => (.recordIssued .workNotFound, m)
      | some s => (.recordIssued (s.issue request).1, m.set request.identity.work (s.issue request).2)
  | .closePlanningAfterFailure work =>
    match m.records work with
    | none => (.closePlanningAfterFailure false, m)
    | some s => (.closePlanningAfterFailure s.closeAfterFailure.1, m.set work s.closeAfterFailure.2)
  | .resolve expected observed session =>
    match m.records expected.identity.work with
    | none => (.resolve { status := .workNotFound }, m)
    | some s => (.resolve (s.complete expected observed session).1,
        m.set expected.identity.work (s.complete expected observed session).2)
  | .summary work =>
    match m.records work with
    | none => (.summary false {}, m)
    | some s => (.summary true (CompletionLedger.summarize s), m)
  | .release work =>
    match m.records work with
    | none => (.release .workNotFound, m)
    | some s => if (CompletionLedger.summarize s).drained then (.release .released, m.erase work) else (.release .stillActive, m)
  | .abandon work =>
    match m.records work with
    | none => (.abandon false, m)
    | some _ => (.abandon true, m.erase work)
  | .abandonGeneration generation =>
    (.removed (m.meeting fun w => w.sessionGeneration == generation).ncard,
      m.forget fun w => w.sessionGeneration == generation)
  | .abandonNotCurrent session =>
    (.removed (m.meeting fun w => !workCurrent w session).ncard, m.forget fun w => !workCurrent w session)
  | .clear => (.clear, empty m.capacity)

end WorkMap

/-! ## Refinement -/

/-- The ledger keeps the map. -/
structure Refines (l : CompletionLedger) (m : WorkMap) : Prop where
  wf : l.WF
  capacity : m.capacity = l.capacity.toNat
  records : ∀ w, m.records w = l.lookup w

namespace Refines

variable {l : CompletionLedger} {m : WorkMap} {w : WorkIdentity} {i : Nat} {s : CompletionLedgerSlot}

theorem keys_eq (h : Refines l m) : m.keys = {w | (l.lookup w).isSome = true} := by
  unfold WorkMap.keys
  simp only [h.records]

/-- **`size` is the number of works on file.** -/
theorem size_eq (h : Refines l m) : m.keys.ncard = l.size.toNat := by
  rw [h.keys_eq, h.wf.size_eq]
  exact SlotTable.ncard_keys h.wf.distinct

/-- Looking a work up in both. -/
theorem found (h : Refines l m) (w : WorkIdentity) : (l.find w = none ∧ m.records w = none) ∨
    ∃ i, l.find w = some i ∧ m.records w = some (l.slot i) := by
  rw [h.records]
  cases hf : l.find w with
  | none => exact Or.inl ⟨rfl, (CompletionLedger.lookup_eq_none_iff h.wf).2 hf⟩
  | some i => exact Or.inr ⟨i, rfl, (CompletionLedger.find_some h.wf hf).2.2⟩

theorem set (h : Refines l m) (hf : l.find w = some i) (hkey : s.key = (l.slot i).key) :
    Refines (l.setSlot i s) (m.set w s) := by
  obtain ⟨hwf, hlookup⟩ := CompletionLedger.setSlot_spec h.wf hf (hkey.trans (CompletionLedger.find_some h.wf hf).2.1)
  refine ⟨hwf, h.capacity, ?_⟩
  intro w'
  simp only [WorkMap.set, hlookup, h.records]

theorem erase (h : Refines l m) (hf : l.find w = some i) : Refines (l.releaseSlot i) (m.erase w) := by
  obtain ⟨hwf, _, hlookup⟩ := CompletionLedger.releaseSlot_spec h.wf hf
  refine ⟨hwf, h.capacity, ?_⟩
  intro w'
  simp only [WorkMap.erase, hlookup, h.records]

theorem finite_keys (h : Refines l m) : m.keys.Finite := by
  rw [h.keys_eq]
  exact SlotTable.finite_keys

/-- A record is filed under its own identity, and that identity is valid. -/
theorem record_work (h : Refines l m) (hs : m.records w = some s) : s.aggregate.work = w ∧ w.valid = true := by
  rw [h.records] at hs
  obtain ⟨i, hi, hk, rfl⟩ := (SlotTable.get_eq_some h.wf.distinct).1 hs
  exact ⟨(CompletionLedger.key_eq_some.1 hk).2, h.wf.key_valid i hi w hk⟩

theorem key_valid (h : Refines l m) (hw : w ∈ m.keys) : w.valid = true := by
  obtain ⟨s, hs⟩ := Option.isSome_iff_exists.1 hw
  exact (h.record_work hs).2

theorem no_keys (h : Refines l m) (hnone : l.slots.isNone = true) : w ∉ m.keys := by
  intro hw
  obtain ⟨s, hs⟩ := Option.isSome_iff_exists.1 hw
  rw [h.records] at hs
  obtain ⟨i, hi, _⟩ := (SlotTable.get_eq_some h.wf.distinct).1 hs
  rw [h.wf.slots_isSome hi] at hnone
  cases hnone

/-- A sweep that finds nothing to remove. -/
theorem forget_none (h : Refines l m) (test : WorkIdentity → Bool) (hno : ∀ w ∈ m.keys, test w = false) :
    (m.meeting test).ncard = 0 ∧ Refines l (m.forget test) := by
  constructor
  · have hempty : m.meeting test = ∅ := by
      ext w
      simp only [WorkMap.meeting, Set.mem_ofPred_eq, Set.mem_empty_iff_false, iff_false]
      rintro ⟨hw, ht⟩
      rw [hno w hw] at ht
      cases ht
    rw [hempty, Set.ncard_empty]
  · refine ⟨h.wf, h.capacity, ?_⟩
    intro w
    rw [← h.records]
    simp only [WorkMap.forget]
    split
    · rename_i ht
      cases hs : m.records w with
      | none => rfl
      | some s =>
        rw [hno w (by simp [WorkMap.keys, hs])] at ht
        cases ht
    · rfl

/-- **A sweep** forgets the works that meet its test and counts them. -/
theorem sweep (h : Refines l m) (slotTest : CompletionLedgerSlot → Bool) (test : WorkIdentity → Bool)
    (htest : ∀ s : CompletionLedgerSlot, slotTest s = test s.aggregate.work) :
    (l.sweep slotTest).1.toNat = (m.meeting test).ncard ∧ Refines (l.sweep slotTest).2 (m.forget test) := by
  have hswept := CompletionLedger.sweep_swept h.wf slotTest
  have hrefines : Refines (l.sweep slotTest).2 (m.forget test) := by
    refine ⟨hswept.wf, ?_, ?_⟩
    · rw [hswept.capacity]
      exact h.capacity
    · intro w
      rw [hswept.lookup h.wf, ← h.records]
      simp only [WorkMap.forget]
      cases hs : m.records w with
      | none => simp
      | some s =>
        have hwork := (h.record_work hs).1
        simp only [Option.filter_some, htest, hwork]
        cases test w <;> rfl
  refine ⟨?_, hrefines⟩
  -- the works that stay and the works that go are all there were
  have hkeys : (m.forget test).keys = m.keys \ {w | test w = true} := by
    ext w
    simp only [WorkMap.keys, WorkMap.forget, Set.mem_ofPred_eq, Set.mem_sdiff]
    cases test w <;> simp
  have hsplit := Set.ncard_inter_add_ncard_sdiff_eq_ncard m.keys {w | test w = true} h.finite_keys
  have hmeet : m.meeting test = m.keys ∩ {w | test w = true} := rfl
  rw [← hkeys, hrefines.size_eq, h.size_eq, ← hmeet] at hsplit
  have := hswept.size
  omega

end Refines

namespace CompletionLedger

variable {l : CompletionLedger} {m : WorkMap}

theorem firstFree_none_iff (h : l.WF) : l.firstFree = none ↔ ¬ l.size.toNat < l.capacity.toNat := by
  have hle := SlotTable.count_le CompletionLedgerSlot.key l.capacity.toNat l.slot
  rw [h.size_eq]
  have hfull : SlotTable.count CompletionLedgerSlot.key l.capacity.toNat l.slot = l.capacity.toNat ↔
      ∀ i < l.capacity.toNat, (l.slot i).occupied = true := by
    have hlen : (List.range l.capacity.toNat).length = l.capacity.toNat := List.length_range
    unfold SlotTable.count
    conv => lhs; rhs; rw [← hlen]
    rw [List.countP_eq_length]
    refine forall_congr' fun i => ?_
    rw [List.mem_range]
    refine imp_congr_right fun _ => ?_
    unfold CompletionLedgerSlot.key
    split <;> simp_all
  unfold firstFree
  split
  · rename_i hnone
    have hcap : l.capacity.toNat = 0 := by
      rcases Nat.eq_zero_or_pos l.capacity.toNat with h0 | hpos
      · exact h0
      · have := h.slots_isSome hpos
        rw [hnone] at this
        cases this
    simp [hcap]
  · unfold firstIndex
    rw [List.find?_eq_none]
    simp only [List.mem_range, Bool.not_eq_true', Bool.not_eq_false]
    rw [← hfull]
    omega

/-- The status of `reserve`. -/
theorem reserve_status (h : l.WF) (w : WorkIdentity) (d : IngressDelivery) :
    (l.reserve w d).1 =
      if !w.valid ∨ !isAccepted d then .invalidWork
      else if (l.lookup w).isSome then .duplicateWork
      else if l.size.toNat < l.capacity.toNat then .reserved
      else .full := by
  have hsome : (l.find w).isSome = (l.lookup w).isSome := by
    rw [find_eq h, lookup, SlotTable.get, Option.isSome_map]
  unfold reserve
  simp only [h.valid, Bool.not_true, Bool.false_eq_true, if_false, hsome]
  split
  · rfl
  split
  · rfl
  by_cases hroom : l.size.toNat < l.capacity.toNat
  · rw [if_pos hroom]
    cases hfree : l.firstFree with
    | none => exact absurd hroom ((firstFree_none_iff h).1 hfree)
    | some i => rfl
  · rw [if_neg hroom, (firstFree_none_iff h).2 hroom]

/-- A record filed is counted. -/
theorem reserve_size (h : l.WF) {w : WorkIdentity} {d : IngressDelivery} (hres : (l.reserve w d).1 = .reserved) :
    (l.reserve w d).2.size.toNat = l.size.toNat + 1 := by
  have hcap := l.capacity.toNat_lt
  have hroom : l.size.toNat < l.capacity.toNat := by
    rw [reserve_status h] at hres
    repeat' split at hres
    all_goals first | assumption | cases hres
  have hsize : (l.reserve w d).2.size = l.size + 1 := by
    unfold reserve at hres ⊢
    repeat' split at hres
    all_goals simp_all
  rw [hsize]
  exact toNat_succ_of_lt (by omega)

end CompletionLedger

/-! ## One call -/

namespace Refines

variable {l : CompletionLedger} {m : WorkMap}

theorem step_reserve (h : Refines l m) (w : WorkIdentity) (d : IngressDelivery) :
    (l.step (.reserve w d)).1 = (m.step (.reserve w d)).1 ∧
    Refines (l.step (.reserve w d)).2 (m.step (.reserve w d)).2 := by
  have hstatus := CompletionLedger.reserve_status h.wf w d
  have hcases := CompletionLedger.reserve_cases h.wf w d
  have hkeep : (l.reserve w d).1 ≠ .reserved → Refines (l.reserve w d).2 m := by
    intro hne
    rw [(hcases.resolve_right fun hr => hne hr.1).2]
    exact h
  simp only [CompletionLedger.step, WorkMap.step, h.records, h.size_eq, h.capacity]
  split at hstatus
  · rw [if_pos ‹_›, hstatus]
    exact ⟨rfl, hkeep (by rw [hstatus]; decide)⟩
  rw [if_neg ‹_›]
  split at hstatus
  · rw [if_pos ‹_›, hstatus]
    exact ⟨rfl, hkeep (by rw [hstatus]; decide)⟩
  rw [if_neg ‹_›]
  split at hstatus
  · rw [if_pos ‹_›, hstatus]
    obtain ⟨_, _, _, _, hwf, hlookup⟩ := hcases.resolve_left fun hl => hl.1 hstatus
    have hcap : (l.reserve w d).2.capacity = l.capacity := by
      unfold CompletionLedger.reserve
      repeat' split
      all_goals rfl
    refine ⟨rfl, hwf, ?_, ?_⟩
    · rw [hcap]
      exact h.capacity
    · intro w'
      simp only [WorkMap.set, hlookup, h.records]
  · rw [if_neg ‹_›, hstatus]
    exact ⟨rfl, hkeep (by rw [hstatus]; decide)⟩

theorem step_abandonGeneration (h : Refines l m) (generation : UInt16) :
    (l.step (.abandonGeneration generation)).1 = (m.step (.abandonGeneration generation)).1 ∧
    Refines (l.step (.abandonGeneration generation)).2 (m.step (.abandonGeneration generation)).2 := by
  simp only [CompletionLedger.step, WorkMap.step, CompletionLedger.abandonGeneration]
  split
  · rename_i hguard
    obtain ⟨hcount, hrefines⟩ := h.forget_none (fun w => w.sessionGeneration == generation) (by
      intro w hw
      rcases hguard with hnone | hzero
      · exact absurd hw (h.no_keys hnone)
      · have := h.key_valid hw
        simp only [WorkIdentity.valid, Bool.and_eq_true, bne_iff_ne] at this
        simpa [hzero] using this.2)
    rw [hcount]
    exact ⟨rfl, hrefines⟩
  · obtain ⟨hcount, hrefines⟩ := h.sweep (fun s => s.aggregate.work.sessionGeneration == generation)
      (fun w => w.sessionGeneration == generation) fun _ => rfl
    rw [hcount]
    exact ⟨rfl, hrefines⟩

theorem step_abandonNotCurrent (h : Refines l m) (session : SessionStateView) :
    (l.step (.abandonNotCurrent session)).1 = (m.step (.abandonNotCurrent session)).1 ∧
    Refines (l.step (.abandonNotCurrent session)).2 (m.step (.abandonNotCurrent session)).2 := by
  simp only [CompletionLedger.step, WorkMap.step, CompletionLedger.abandonNotCurrent]
  split
  · rename_i hnone
    obtain ⟨hcount, hrefines⟩ := h.forget_none (fun w => !workCurrent w session) fun w hw =>
      absurd hw (h.no_keys hnone)
    rw [hcount]
    exact ⟨rfl, hrefines⟩
  · obtain ⟨hcount, hrefines⟩ := h.sweep (fun s => !workCurrent s.aggregate.work session)
      (fun w => !workCurrent w session) fun _ => rfl
    rw [hcount]
    exact ⟨rfl, hrefines⟩

/-- **One call**: the ledger answers as the map does, and keeps it. -/
theorem step (h : Refines l m) (call : LedgerCall) :
    (l.step call).1 = (m.step call).1 ∧ Refines (l.step call).2 (m.step call).2 := by
  cases call with
  | reserve w d => exact h.step_reserve w d
  | recordIssued request =>
    simp only [CompletionLedger.step, WorkMap.step]
    by_cases hbad : (!request.identity.valid) = true ∨ (!isAccepted request.delivery) = true
    · rw [if_pos hbad, CompletionLedger.recordIssued, if_pos hbad]
      exact ⟨rfl, h⟩
    rw [if_neg hbad]
    rcases h.found request.identity.work with ⟨hf, hm⟩ | ⟨i, hf, hm⟩
    · rw [CompletionLedger.recordIssued, if_neg hbad, hf, hm]
      exact ⟨rfl, h⟩
    · rw [CompletionLedger.recordIssued_of_find hf hbad, hm]
      exact ⟨rfl, h.set hf (CompletionLedgerSlot.issue_key _ _)⟩
  | closePlanningAfterFailure w =>
    simp only [CompletionLedger.step, WorkMap.step]
    rcases h.found w with ⟨hf, hm⟩ | ⟨i, hf, hm⟩
    · rw [CompletionLedger.closePlanningAfterFailure, hf, hm]
      exact ⟨rfl, h⟩
    · rw [CompletionLedger.closePlanningAfterFailure_of_find hf, hm]
      exact ⟨rfl, h.set hf (CompletionLedgerSlot.closeAfterFailure_key _)⟩
  | resolve expected observed session =>
    simp only [CompletionLedger.step, WorkMap.step]
    rcases h.found expected.identity.work with ⟨hf, hm⟩ | ⟨i, hf, hm⟩
    · rw [CompletionLedger.resolve, hf, hm]
      exact ⟨rfl, h⟩
    · rw [CompletionLedger.resolve_of_find hf, hm]
      exact ⟨rfl, h.set hf (CompletionLedgerSlot.complete_key _ _ _ _)⟩
  | summary w =>
    simp only [CompletionLedger.step, WorkMap.step, CompletionLedger.summary]
    rcases h.found w with ⟨hf, hm⟩ | ⟨i, hf, hm⟩ <;> rw [hf, hm] <;> exact ⟨rfl, h⟩
  | release w =>
    simp only [CompletionLedger.step, WorkMap.step, CompletionLedger.release]
    rcases h.found w with ⟨hf, hm⟩ | ⟨i, hf, hm⟩
    · rw [hf, hm]
      exact ⟨rfl, h⟩
    · rw [hf, hm]
      cases hdrained : (CompletionLedger.summarize (l.slot i)).drained with
      | false => simpa [hdrained] using h
      | true => simpa [hdrained] using h.erase hf
  | abandon w =>
    simp only [CompletionLedger.step, WorkMap.step, CompletionLedger.abandon]
    rcases h.found w with ⟨hf, hm⟩ | ⟨i, hf, hm⟩
    · rw [hf, hm]
      exact ⟨rfl, h⟩
    · rw [hf, hm]
      exact ⟨rfl, h.erase hf⟩
  | abandonGeneration generation => exact h.step_abandonGeneration generation
  | abandonNotCurrent session => exact h.step_abandonNotCurrent session
  | clear =>
    obtain ⟨hwf, _, hlookup⟩ := CompletionLedger.clear_spec h.wf.valid
    exact ⟨rfl, hwf, h.capacity, fun w => (hlookup w).symm⟩

end Refines

/-! ## Every run -/

theorem WorkMap.step_capacity (m : WorkMap) (call : LedgerCall) : (m.step call).2.capacity = m.capacity := by
  cases call <;> simp only [step]
  all_goals repeat' split
  all_goals rfl

/-- A call addressed to one work leaves the others. -/
theorem WorkMap.step_frame {m : WorkMap} {call : LedgerCall} {w w' : WorkIdentity} (h : call.addressee = some w)
    (hne : w' ≠ w) : (m.step call).2.records w' = m.records w' := by
  cases call <;> simp only [LedgerCall.addressee, Option.some.injEq, reduceCtorEq] at h
  all_goals subst h
  all_goals simp only [step]
  all_goals repeat' split
  all_goals simp only [set, erase, if_neg hne]

/-- How many works a call reports to have let in. -/
def LedgerResult.added : LedgerResult → Nat
  | .reserve .reserved => 1
  | _ => 0

/-- How many works it reports to have let go. -/
def LedgerResult.removals : LedgerResult → Nat
  | .release .released | .abandon true => 1
  | .removed count => count
  | _ => 0

/-- What holds of a ledger and of the map it keeps. -/
structure KeepsMap (l : CompletionLedger) (m : WorkMap) : Prop where
  records : ∀ w, l.lookup w = m.records w
  filed : ∀ w s, m.records w = some s → s.aggregate.work = w ∧ w.valid = true
  once : ∀ i j w, i < l.capacity.toNat → j < l.capacity.toNat → (l.slot i).key = some w → (l.slot j).key = some w → i = j
  size : l.size.toNat = m.keys.ncard
  within : m.keys.ncard ≤ m.capacity
  reserves : ∀ w d, (l.reserve w d).1 = .reserved ↔
    w.valid = true ∧ isAccepted d = true ∧ m.records w = none ∧ m.keys.ncard < m.capacity
  counts : ∀ call, call ≠ .clear →
    (l.step call).2.size.toNat + (l.step call).1.removals = l.size.toNat + (l.step call).1.added
  frame : ∀ call w, call.addressee = some w → ∀ w', w' ≠ w →
    (l.step call).2.lookup w' = l.lookup w' ∧ (l.step call).2.summary w' = l.summary w'

namespace Refines

variable {l : CompletionLedger} {m : WorkMap}

/-- No decrement of `size` underflows, and no increment overflows. -/
theorem counts (h : Refines l m) {call : LedgerCall} (hne : call ≠ .clear) :
    (l.step call).2.size.toNat + (l.step call).1.removals = l.size.toNat + (l.step call).1.added := by
  cases call with
  | reserve w d =>
    simp only [CompletionLedger.step]
    by_cases hres : (l.reserve w d).1 = .reserved
    · rw [hres, CompletionLedger.reserve_size h.wf hres]
      rfl
    · rw [((CompletionLedger.reserve_cases h.wf w d).resolve_right fun hr => hres hr.1).2]
      cases hs : (l.reserve w d).1 <;> first | exact absurd hs hres | rfl
  | recordIssued request =>
    simp only [CompletionLedger.step, LedgerResult.removals, LedgerResult.added]
    by_cases hbad : (!request.identity.valid) = true ∨ (!isAccepted request.delivery) = true
    · rw [CompletionLedger.recordIssued, if_pos hbad]
    cases hf : l.find request.identity.work with
    | none => rw [CompletionLedger.recordIssued, if_neg hbad, hf]
    | some i =>
      rw [CompletionLedger.recordIssued_of_find hf hbad]
      rfl
  | closePlanningAfterFailure w =>
    simp only [CompletionLedger.step, LedgerResult.removals, LedgerResult.added]
    cases hf : l.find w with
    | none => rw [CompletionLedger.closePlanningAfterFailure, hf]
    | some i =>
      rw [CompletionLedger.closePlanningAfterFailure_of_find hf]
      rfl
  | resolve expected observed session =>
    simp only [CompletionLedger.step, LedgerResult.removals, LedgerResult.added]
    cases hf : l.find expected.identity.work with
    | none => rw [CompletionLedger.resolve, hf]
    | some i =>
      rw [CompletionLedger.resolve_of_find hf]
      rfl
  | summary w => rfl
  | release w =>
    simp only [CompletionLedger.step, CompletionLedger.release]
    cases hf : l.find w with
    | none => rfl
    | some i =>
      simp only
      split
      · rfl
      · exact (CompletionLedger.releaseSlot_spec h.wf hf).2.1
  | abandon w =>
    simp only [CompletionLedger.step, CompletionLedger.abandon]
    cases hf : l.find w with
    | none => rfl
    | some i => exact (CompletionLedger.releaseSlot_spec h.wf hf).2.1
  | abandonGeneration generation =>
    simp only [CompletionLedger.step, CompletionLedger.abandonGeneration]
    split
    · rfl
    · exact (CompletionLedger.sweep_swept h.wf _).size
  | abandonNotCurrent session =>
    simp only [CompletionLedger.step, CompletionLedger.abandonNotCurrent]
    split
    · rfl
    · exact (CompletionLedger.sweep_swept h.wf _).size
  | clear => exact absurd rfl hne

theorem summary_eq (h : Refines l m) (w : WorkIdentity) : l.summary w =
    ((m.records w).isSome, ((m.records w).map CompletionLedger.summarize).getD {}) := by
  unfold CompletionLedger.summary
  rcases h.found w with ⟨hf, hm⟩ | ⟨i, hf, hm⟩ <;> rw [hf, hm] <;> rfl

theorem keepsMap (h : Refines l m) : KeepsMap l m := by
  have hwithin : m.keys.ncard ≤ m.capacity := by
    rw [h.size_eq, h.capacity, h.wf.size_eq]
    exact SlotTable.count_le _ _ _
  refine ⟨fun w => (h.records w).symm, fun w s => h.record_work, h.wf.distinct, h.size_eq.symm, hwithin, ?_,
    fun call => h.counts, ?_⟩
  · intro w d
    rw [CompletionLedger.reserve_status h.wf, ← h.records, ← h.size_eq, ← h.capacity]
    by_cases hbad : (!w.valid) = true ∨ (!isAccepted d) = true
    · rw [if_pos hbad]
      simp only [reduceCtorEq, false_iff]
      rintro ⟨h1, h2, _⟩
      simp [h1, h2] at hbad
    rw [if_neg hbad]
    simp only [not_or, Bool.not_eq_true', Bool.not_eq_false] at hbad
    cases hs : m.records w with
    | some s => simp
    | none =>
      by_cases hroom : m.keys.ncard < m.capacity
      · simp [hbad, hroom]
      · simp [hroom]
  · intro call w hw w' hne
    have hnext := (h.step call).2
    have hsame : (m.step call).2.records w' = m.records w' := WorkMap.step_frame hw hne
    refine ⟨?_, ?_⟩
    · rw [← hnext.records, ← h.records, hsame]
    · rw [hnext.summary_eq, h.summary_eq, hsame]

end Refines

theorem create_refines {slots : Storage CompletionLedgerSlot} {capacity : UInt16}
    (hstorage : capacity = 0 ∨ slots.isNone = false) :
    Refines (CompletionLedger.create slots capacity) (WorkMap.empty capacity.toNat) := by
  obtain ⟨hwf, hnone⟩ := CompletionLedger.create_spec hstorage
  exact ⟨hwf, rfl, fun w => (hnone w).symm⟩

/-- **The ledger refines a bounded map.** -/
theorem ledger_refines_map {slots : Storage CompletionLedgerSlot} {capacity : UInt16}
    (hstorage : capacity = 0 ∨ slots.isNone = false) (calls : List LedgerCall) :
    (Machine.trace CompletionLedger.step (.create slots capacity) calls).map Machine.Event.output =
      (Machine.trace WorkMap.step (.empty capacity.toNat) calls).map Machine.Event.output ∧
    (Machine.final WorkMap.step (.empty capacity.toNat) calls).capacity = capacity.toNat ∧
    KeepsMap (Machine.final CompletionLedger.step (.create slots capacity) calls)
      (Machine.final WorkMap.step (.empty capacity.toNat) calls) := by
  obtain ⟨houtputs, hrefines⟩ := Machine.refines (fun _ _ call h => h.step call) (create_refines hstorage) calls
  have hcapacity := Machine.inv_final WorkMap.step (P := fun m => m.capacity = capacity.toNat)
    (fun m call h => (m.step_capacity call).trans h) (s := .empty capacity.toNat) rfl calls
  exact ⟨houtputs, hcapacity, hrefines.keepsMap⟩

/-- Two slots and three works: the third gets the slot the first one leaves. -/
def testLedgerCalls : List LedgerCall :=
  [.reserve ⟨1, 9⟩ .tracked, .reserve ⟨2, 9⟩ .latestState, .reserve ⟨3, 9⟩ .tracked, .abandon ⟨1, 9⟩,
    .reserve ⟨3, 9⟩ .tracked, .reserve ⟨2, 9⟩ .tracked, .abandonGeneration 9]

example : (Machine.trace CompletionLedger.step (.create (some fun _ => {}) 2) testLedgerCalls).map Machine.Event.output =
    [.reserve .reserved, .reserve .reserved, .reserve .full, .abandon true, .reserve .reserved, .reserve .duplicateWork,
      .removed 2] := by decide

theorem ledger_refines_map_test :
    (Machine.trace CompletionLedger.step (.create (some fun _ => {}) 2) testLedgerCalls).map Machine.Event.output =
      (Machine.trace WorkMap.step (.empty 2) testLedgerCalls).map Machine.Event.output ∧
    KeepsMap (Machine.final CompletionLedger.step (.create (some fun _ => {}) 2) testLedgerCalls)
      (Machine.final WorkMap.step (.empty 2) testLedgerCalls) := by
  have hstorage : (2 : UInt16) = 0 ∨ (some fun _ => {} : Storage CompletionLedgerSlot).isNone = false := Or.inr rfl
  obtain ⟨houtputs, _, hkeeps⟩ := ledger_refines_map hstorage testLedgerCalls
  exact ⟨houtputs, hkeeps⟩

end ModbusRTUBridge
