import ModbusRTUBridge.LedgerRecord
import ModbusRTUBridge.PollScan
import ModbusRTUBridge.RingQueue
import ModbusRTUBridge.WorkSlot
/-!
# Queue, ledger and in-flight action agree

The ledger holds exactly one record for every queued work, and that record is a function of
the work's slot: `idleRecord` while nothing of it is outstanding, `busyRecord` of the retained
request while its fragment is in flight. `Filed` says so about a list of slots and a partial
map; `Coherent` is `Filed` of a bridge's own queue and ledger.
-/

namespace ModbusRTUBridge

/-- The record of a work with `k` fragments applied and nothing outstanding. -/
def recordAt (work : WorkIdentity) (delivery : IngressDelivery) (k : UInt16) : CompletionLedgerSlot :=
  { aggregate := { work, delivery, nextFragmentIndex := k }
    observedOutcome := if k = 0 then .pending else .applied
    nextIssuedFragment := k
    occupied := true }

/-- The record while `w` is outstanding. -/
def busyRecord (w : PlannedWriteRequest) : CompletionLedgerSlot :=
  CompletionLedger.issuedSlot (recordAt w.identity.work w.delivery w.identity.fragmentIndex) w

theorem busyRecord_outstanding (w : PlannedWriteRequest) : (busyRecord w).outstandingRequests ≠ 0 := by
  simp [busyRecord, CompletionLedger.issuedSlot]

namespace StoreForwardWorkSlot

def idleRecord (s : StoreForwardWorkSlot) : CompletionLedgerSlot :=
  recordAt s.workIdentity s.workDelivery s.fragmentIndex

/-- Slot `s` stands right after the fragment that the retained action `a` writes. -/
def Issued (p : ForwardPlanner) (s : StoreForwardWorkSlot) (a : StoreForwardAction) : Prop :=
  ∃ s₀ : StoreForwardWorkSlot, s₀.Ok p ∧ s₀.remaining ≠ 0 ∧ s₀.Takes a.write a.sequence ∧ a.sequence ≠ 0 ∧
    s = s₀.advance a.write.quantity ∧ a.workContext = s.userContext ∧ a.kind = .forwardWrite ∧
    ∃ ctx, a.downstream = downstreamRequestFor a.write ctx

variable {p : ForwardPlanner} {s : StoreForwardWorkSlot} {a : StoreForwardAction}

theorem Issued.work_eq (h : s.Issued p a) : a.write.identity.work = s.workIdentity := by
  obtain ⟨s₀, _, _, ht, _, rfl, _⟩ := h
  rw [ht.identity]; rfl

theorem Issued.delivery_eq (h : s.Issued p a) : a.write.delivery = s.workDelivery := by
  obtain ⟨s₀, _, _, ht, _, rfl, _⟩ := h
  exact ht.delivery

theorem Issued.identity_valid (h : s.Issued p a) : a.write.identity.valid = true := by
  obtain ⟨s₀, hok, _, ht, hs, rfl, _⟩ := h
  simp [RequestIdentity.valid, ht.identity, hok.identity, hs]

theorem Issued.context_eq (h : s.Issued p a) : a.workContext = s.userContext := by
  obtain ⟨_, _, _, _, _, _, hctx, _, _⟩ := h
  exact hctx

theorem Issued.ok (h : s.Issued p a) : s.Ok p := by
  obtain ⟨s₀, hok, hr, ht, _, rfl, _⟩ := h
  exact hok.advance hr ht.pos ht.le_remaining

/-- The fragment is the final one exactly when nothing is left. -/
theorem Issued.final_iff (h : s.Issued p a) : a.write.finalFragment = true ↔ s.remaining = 0 := by
  obtain ⟨s₀, hok, hr, ht, _, rfl, _⟩ := h
  have hsub : (s₀.remaining - a.write.quantity).toNat = s₀.remaining.toNat - a.write.quantity.toNat :=
    toNat_sub_of_le ht.le_remaining
  have hle := ht.le_remaining
  rw [ht.final_iff]
  show _ ↔ s₀.remaining - a.write.quantity = 0
  rw [← UInt16.toNat_inj, ← UInt16.toNat_inj, hsub]
  simp
  omega

/-- The index moved on by one and did not wrap. -/
theorem Issued.index_eq (h : s.Issued p a) : s.fragmentIndex = a.write.identity.fragmentIndex + 1 ∧
    s.fragmentIndex ≠ 0 ∧ a.write.identity.fragmentIndex ≠ 0xFFFF := by
  obtain ⟨s₀, hok, hr, ht, _, rfl, _⟩ := h
  have hlt := hok.index_lt hr
  have hadd : (s₀.fragmentIndex + 1).toNat = s₀.fragmentIndex.toNat + 1 := toNat_succ_of_lt (by omega)
  rw [ht.identity]
  refine ⟨rfl, ?_, ?_⟩
  · intro e
    change s₀.fragmentIndex + 1 = 0 at e
    rw [e] at hadd
    simp at hadd
  · exact hok.index_ne_last hr

end StoreForwardWorkSlot

/-! ## A list of slots and the records filed for them -/

/-- The ledger as a partial map from identities to records. -/
abbrev Records := WorkIdentity → Option CompletionLedgerSlot

/-- `l` with the record of `w` replaced. -/
def Records.file (l : Records) (w : WorkIdentity) (r : Option CompletionLedgerSlot) : Records :=
  fun w' => if w' = w then r else l w'

@[simp] theorem Records.file_self (l : Records) (w : WorkIdentity) (r : Option CompletionLedgerSlot) :
    l.file w r w = r := if_pos rfl

theorem Records.file_ne {l : Records} {w w' : WorkIdentity} {r : Option CompletionLedgerSlot} (h : w' ≠ w) :
    l.file w r w' = l w' := if_neg h

open StoreForwardWorkSlot (Issued)

/-- A slot and its record, given the outstanding action of that slot if there is one. -/
def Recorded (p : ForwardPlanner) (l : Records) (s : StoreForwardWorkSlot) : Option StoreForwardAction → Prop
  | none => s.remaining ≠ 0 ∧ l s.workIdentity = some s.idleRecord
  | some a => s.Issued p a ∧ l s.workIdentity = some (busyRecord a.write)

/-- Every slot has its record, only the first may have a fragment outstanding or behind it, and
nothing else is on record. -/
structure Filed (p : ForwardPlanner) (queue : List StoreForwardWorkSlot) (l : Records)
    (outstanding : Option StoreForwardAction) : Prop where
  slots : ∀ s ∈ queue, s.Ok p
  nodup : (queue.map (·.workIdentity)).Nodup
  keys : ∀ w r, l w = some r → w ∈ queue.map (·.workIdentity)
  front : ∀ s ∈ queue.head?, Recorded p l s outstanding
  waiting : ∀ s ∈ queue.tail, s.fragmentIndex = 0 ∧ Recorded p l s none
  owner : outstanding.isSome = true → queue ≠ []

namespace Filed

variable {p : ForwardPlanner} {queue rest : List StoreForwardWorkSlot} {l : Records}
  {outstanding : Option StoreForwardAction} {s s' : StoreForwardWorkSlot} {a : StoreForwardAction}

theorem nil : Filed p [] (fun _ => none) none := by
  refine ⟨?_, List.nodup_nil, ?_, ?_, ?_, ?_⟩ <;> simp

/-- A record of another work does not matter. -/
theorem recorded_file {w : WorkIdentity} {r : Option CompletionLedgerSlot} (h : Recorded p l s outstanding)
    (hne : s.workIdentity ≠ w) : Recorded p (l.file w r) s outstanding := by
  cases outstanding <;> exact ⟨h.1, (Records.file_ne hne).trans h.2⟩

theorem front_cons (h : Filed p (s :: rest) l outstanding) : Recorded p l s outstanding := h.front s rfl

theorem tail_ne (h : Filed p (s :: rest) l outstanding) : ∀ s' ∈ rest, s'.workIdentity ≠ s.workIdentity := by
  intro s' hs' e
  have hnd := h.nodup
  rw [List.map_cons, List.nodup_cons] at hnd
  exact hnd.1 (e ▸ List.mem_map_of_mem hs')

/-- **Admission** of a new identity at the back. -/
theorem push (h : Filed p queue l outstanding) (hok : s.Ok p) (hfresh : s.fragmentIndex = 0) (hrem : s.remaining ≠ 0)
    (hnew : l s.workIdentity = none) : Filed p (queue ++ [s]) (l.file s.workIdentity (some s.idleRecord)) outstanding := by
  have hrec : ∀ s' ∈ queue, ∃ r, l s'.workIdentity = some r := by
    intro s' hs'
    cases queue with
    | nil => cases hs'
    | cons f rest =>
      rcases List.mem_cons.1 hs' with rfl | hs'
      · have := h.front_cons; cases outstanding <;> exact ⟨_, this.2⟩
      · exact ⟨_, (h.waiting s' hs').2.2⟩
  have hne : ∀ s' ∈ queue, s'.workIdentity ≠ s.workIdentity := by
    intro s' hs' e
    obtain ⟨r, hr⟩ := hrec s' hs'
    rw [e, hnew] at hr
    cases hr
  have hself : Recorded p (l.file s.workIdentity (some s.idleRecord)) s none := ⟨hrem, Records.file_self _ _ _⟩
  refine ⟨?_, ?_, ?_, ?_, ?_, fun ho => by simp⟩
  · intro s' hs'
    rcases List.mem_append.1 hs' with hs' | hs'
    · exact h.slots s' hs'
    · exact List.mem_singleton.1 hs' ▸ hok
  · rw [List.map_append, List.nodup_append]
    refine ⟨h.nodup, by simp, ?_⟩
    intro w hw w' hw' e
    obtain ⟨s', hs', rfl⟩ := List.mem_map.1 hw
    simp only [List.map_cons, List.map_nil, List.mem_singleton] at hw'
    exact hne s' hs' (e.trans hw')
  · intro w r hr
    by_cases hw : w = s.workIdentity
    · simp [hw]
    · rw [Records.file_ne hw] at hr
      rw [List.map_append]
      exact List.mem_append_left _ (h.keys w r hr)
  · intro s' hs'
    cases queue with
    | nil =>
      simp only [List.nil_append, List.head?_cons, Option.mem_some_iff] at hs'
      subst hs'
      cases outstanding with
      | none => exact hself
      | some a => exact absurd rfl (h.owner rfl)
    | cons f rest =>
      simp only [List.cons_append, List.head?_cons, Option.mem_some_iff] at hs'
      subst hs'
      exact recorded_file h.front_cons (hne _ List.mem_cons_self)
  · intro s' hs'
    cases queue with
    | nil => simp at hs'
    | cons f rest =>
      simp only [List.cons_append, List.tail_cons, List.mem_append, List.mem_singleton] at hs'
      rcases hs' with hs' | rfl
      · exact ⟨(h.waiting s' hs').1, recorded_file (h.waiting s' hs').2 (hne s' (List.mem_cons_of_mem _ hs'))⟩
      · exact ⟨hfresh, hself⟩

/-- **Retirement** of the front work, whatever was outstanding. -/
theorem pop (h : Filed p (s :: rest) l outstanding) : Filed p rest (l.file s.workIdentity none) none := by
  have hne := h.tail_ne
  have hnd := h.nodup
  rw [List.map_cons, List.nodup_cons] at hnd
  have hwait : ∀ s' ∈ rest, s'.fragmentIndex = 0 ∧ Recorded p (l.file s.workIdentity none) s' none := fun s' hs' =>
    ⟨(h.waiting s' hs').1, recorded_file (h.waiting s' hs').2 (hne s' hs')⟩
  refine ⟨?_, hnd.2, ?_, ?_, ?_, by simp⟩
  · intro s' hs'
    exact h.slots s' (List.mem_cons_of_mem _ hs')
  · intro w r hr
    by_cases hw : w = s.workIdentity
    · rw [hw, Records.file_self] at hr; cases hr
    · rw [Records.file_ne hw] at hr
      have := h.keys w r hr
      simp only [List.map_cons, List.mem_cons] at this
      exact this.resolve_left hw
  · intro s' hs'
    exact (hwait s' (List.mem_of_mem_head? hs')).2
  · intro s' hs'
    exact hwait s' (List.mem_of_mem_tail hs')

/-- The front slot and its record change together. -/
theorem rewrite_front (h : Filed p (s :: rest) l outstanding) {r : CompletionLedgerSlot}
    {outstanding' : Option StoreForwardAction} (hok : s'.Ok p) (hid : s'.workIdentity = s.workIdentity)
    (hrec : Recorded p (l.file s.workIdentity (some r)) s' outstanding') :
    Filed p (s' :: rest) (l.file s.workIdentity (some r)) outstanding' := by
  have hne := h.tail_ne
  refine ⟨?_, ?_, ?_, ?_, ?_, fun _ => by simp⟩
  · intro s₁ hs₁
    rcases List.mem_cons.1 hs₁ with rfl | hs₁
    · exact hok
    · exact h.slots s₁ (List.mem_cons_of_mem _ hs₁)
  · have := h.nodup
    rw [List.map_cons, ← hid] at this
    exact this
  · intro w r' hr'
    by_cases hw : w = s.workIdentity
    · simp [hw, hid]
    · rw [Records.file_ne hw] at hr'
      have := h.keys w r' hr'
      simp only [List.map_cons, List.mem_cons] at this ⊢
      exact Or.inr (this.resolve_left hw)
  · intro s₁ hs₁
    simp only [List.head?_cons, Option.mem_some_iff] at hs₁
    exact hs₁ ▸ hrec
  · intro s₁ hs₁
    exact ⟨(h.waiting s₁ hs₁).1, recorded_file (h.waiting s₁ hs₁).2 (hne s₁ hs₁)⟩

/-- **Issue** of the front's next fragment. -/
theorem issue (h : Filed p (s :: rest) l none) (ht : s.Takes a.write a.sequence) (hs : a.sequence ≠ 0)
    (hctx : a.workContext = s.userContext) (hkind : a.kind = .forwardWrite)
    (hdown : ∃ ctx, a.downstream = downstreamRequestFor a.write ctx) :
    Filed p (s.advance a.write.quantity :: rest) (l.file s.workIdentity (some (busyRecord a.write))) (some a) := by
  have hok := h.slots s List.mem_cons_self
  have hr := h.front_cons.1
  exact h.rewrite_front (hok.advance hr ht.pos ht.le_remaining) rfl
    ⟨⟨s, hok, hr, ht, hs, rfl, hctx, hkind, hdown⟩, Records.file_self _ _ _⟩

/-- **Progress**: the outstanding fragment was applied and more is left. -/
theorem progress (h : Filed p (s :: rest) l (some a)) (hr : s.remaining ≠ 0) :
    Filed p (s :: rest) (l.file s.workIdentity (some s.idleRecord)) none :=
  h.rewrite_front (h.slots s List.mem_cons_self) rfl ⟨hr, Records.file_self _ _ _⟩

end Filed

/-! ## The facade -/

namespace StoreForwardBridge

/-- The queued works, front first. -/
def queue (b : StoreForwardBridge) : List StoreForwardWorkSlot := b.workQueue.toList

def records (b : StoreForwardBridge) : Records := b.completionLedger.lookup

/-- The retained action when it is a `ForwardWrite`. -/
def outstanding (b : StoreForwardBridge) : Option StoreForwardAction :=
  if b.inFlight = true ∧ b.inFlightAction.kind = .forwardWrite then some b.inFlightAction else none

/-- **The coherence invariant.** -/
structure Coherent (b : StoreForwardBridge) : Prop where
  routes : b.forwardPlanner.RoutesOk
  queue : b.workQueue.WF
  ledger : b.completionLedger.WF
  filed : Filed b.forwardPlanner b.queue b.records b.outstanding
  kinds : b.inFlight = true → b.inFlightAction.kind = .forwardWrite ∨ b.inFlightAction.kind = .poll
  owner : ∀ a, b.outstanding = some a → b.inFlightWork = a.write.identity.work

variable {b : StoreForwardBridge}

theorem outstanding_idle (h : b.inFlight = false) : b.outstanding = none := by simp [outstanding, h]

theorem outstanding_eq_some {a : StoreForwardAction} :
    b.outstanding = some a ↔ b.inFlight = true ∧ b.inFlightAction = a ∧ a.kind = .forwardWrite := by
  unfold outstanding
  constructor
  · intro h
    split at h
    · rename_i hc; cases h; exact ⟨hc.1, rfl, hc.2⟩
    · cases h
  · rintro ⟨h1, rfl, h2⟩
    rw [if_pos ⟨h1, h2⟩]

theorem kind_of_outstanding {a : StoreForwardAction} (h : b.outstanding = some a) :
    b.inFlightAction.kind = .forwardWrite := by
  obtain ⟨_, rfl, hk⟩ := outstanding_eq_some.1 h
  exact hk

/-- An admitted poll leaves no fragment outstanding. -/
theorem outstanding_of_poll {a : StoreForwardAction} (ha : b.inFlightAction = a) (hk : a.kind = .poll) :
    b.outstanding = none := by
  cases ho : b.outstanding with
  | none => rfl
  | some a' =>
    have hk' := kind_of_outstanding ho
    rw [ha, hk] at hk'
    cases hk'

theorem Coherent.validStorage (h : b.Coherent) : b.validStorage = true := by
  simp [StoreForwardBridge.validStorage, h.queue.valid, h.ledger.valid]

theorem Coherent.front_eq (h : b.Coherent) : b.workQueue.front = b.queue.head? := FixedRingQueue.front_eq h.queue

end StoreForwardBridge

end ModbusRTUBridge
