import ModbusRTUBridge.CachedBridge
/-!
# What a step does to the images

Seen from one element type a step of a facade with caches moves a range of the visible image,
marks the range of a fragment completed as applied, or leaves both images alone (`Effect`).
-/

namespace ModbusRTUBridge

open CachedBridge (Input Output)

/-! ## Either element type -/

/-- A request to a cache is a copy to its visible image, or nothing. -/
theorem CacheOp.perform_copies {Value : Type} [AppliedPayload Value] (op : CacheOp) (cache : DesiredAppliedCache Value)
    (mem : Memory) : op.perform cache mem = (false, mem) ∨
      ∃ start source count, op.perform cache mem = cache.visible.copyFrom mem start source count := by
  cases op with
  | captureDesired start snapshot count => exact Or.inr ⟨start, snapshot, count, rfl⟩
  | restore start count =>
    show cache.restore mem start count = _ ∨ ∃ _ _ _, cache.restore mem start count = _
    rw [DesiredAppliedCache.restore_eq]
    split
    · exact Or.inr ⟨_, _, _, rfl⟩
    · exact Or.inl rfl

/-- If copies of one type spare another type, so do the operations of its cache. -/
theorem operations_untouched {Value Other : Type} [AppliedPayload Value] [MemoryCell Other]
    (h : ∀ mem (v : MutableImageView Value) start source count, Untouched Other mem (v.copyFrom mem start source count).2)
    (cache : DesiredAppliedCache Value) (mem : Memory) :
    (∀ op : CacheOp, Untouched Other mem (op.perform cache mem).2) ∧
    ∀ w d, Untouched Other mem (applyAppliedImageTransition mem cache w d).2 := by
  constructor
  · intro op
    rcases op.perform_copies cache mem with heq | ⟨start, source, count, heq⟩
    · rw [heq]
      exact .rfl
    · rw [heq]
      exact h mem _ _ _ _
  · intro w d
    rcases applyAppliedImageTransition_copies mem cache w d with heq | heq
    · rw [heq]
      exact .rfl
    · rw [heq]
      exact h mem _ _ _ _

/-- The cache of an element type and the caller's requests to it. -/
class CachedElement (Value : Type) extends AppliedPayload Value where
  cache : Caches → DesiredAppliedCache Value
  request : CacheOp → Input

instance : CachedElement Bool where
  cache := Caches.coils
  request := .coils

instance : CachedElement UInt16 where
  cache := Caches.holding
  request := .holding

/-- The cache of the type. -/
abbrev Caches.of (caches : Caches) (Value : Type) [CachedElement Value] : DesiredAppliedCache Value :=
  CachedElement.cache caches

/-- The caller's own business with the caches of the other type. -/
def CachedElement.Other (Value : Type) [CachedElement Value] (input : Input) : Prop :=
  (∀ op, input ≠ CachedElement.request Value op) ∧ (∀ op, input ≠ .call op) ∧ ∀ mem, input ≠ .store mem

/-- What the proofs use of an element type. -/
class LawfulElement (Value : Type) [CachedElement Value] : Prop where
  requested : ∀ (caches : Caches) s op, CachedBridge.exec caches s (CachedElement.request Value op) =
    (.moved (op.perform (caches.of Value) s.memory).1,
      { s with memory := (op.perform (caches.of Value) s.memory).2 })
  other : ∀ caches s input, CachedElement.Other Value input →
    Untouched Value s.memory (CachedBridge.exec caches s input).2.memory
  spared : ∀ (caches : Caches) mem mem', caches.Spared mem mem' →
    (caches.of Value).visible.Same mem mem' ∧
    (caches.of Value).applied.Same mem mem'
  recorded : ∀ (caches : Caches) mem (w : PlannedWriteRequest) d, w.table = WorkTraits.table Value →
    recordApplied caches mem w d = (applyAppliedImageTransition mem (caches.of Value) w d).2
  recorded_other : ∀ caches mem (w : PlannedWriteRequest) d, w.table ≠ WorkTraits.table Value →
    Untouched Value mem (recordApplied caches mem w d)
  payload : ∀ w : PlannedWriteRequest, w.table = WorkTraits.table Value → AppliedPayload.values Value w = w.payload
  cells : ∀ (work : Ingress) mem mem', work.table = WorkTraits.table Value → work.SameCells mem mem' →
    ∀ j < work.count.toNat, (MemoryCell.load mem (work.snapshot.add j) : Value) =
      MemoryCell.load mem' (work.snapshot.add j)

instance : LawfulElement Bool where
  requested _ _ _ := rfl
  other caches s input h := by
    cases input with
    | call op => exact absurd rfl (h.2.1 op)
    | coils op => exact absurd rfl (h.1 op)
    | holding op => exact (operations_untouched copyFrom_holding_untouched caches.holding s.memory).1 op
    | store mem => exact absurd rfl (h.2.2 mem)
  spared _ _ _ h := h.1
  recorded caches mem w d h := by simp only [recordApplied, show w.table = .coils from h]; rfl
  recorded_other caches mem w d h := by
    unfold recordApplied
    cases ht : w.table with
    | coils => exact absurd ht h
    | holdingRegisters => exact (operations_untouched copyFrom_holding_untouched caches.holding mem).2 w d
    | _ => exact .rfl
  payload w h := by simp only [PlannedWriteRequest.payload, show w.table = .coils from h]; rfl
  cells work mem mem' h hcells j hj := by
    cases work with
    | coils work => exact hcells j hj
    | holding work => cases h

instance : LawfulElement UInt16 where
  requested _ _ _ := rfl
  other caches s input h := by
    cases input with
    | call op => exact absurd rfl (h.2.1 op)
    | coils op => exact (operations_untouched copyFrom_coils_untouched caches.coils s.memory).1 op
    | holding op => exact absurd rfl (h.1 op)
    | store mem => exact absurd rfl (h.2.2 mem)
  spared _ _ _ h := h.2
  recorded caches mem w d h := by simp only [recordApplied, show w.table = .holdingRegisters from h]; rfl
  recorded_other caches mem w d h := by
    unfold recordApplied
    cases ht : w.table with
    | coils => exact (operations_untouched copyFrom_coils_untouched caches.coils mem).2 w d
    | holdingRegisters => exact absurd ht h
    | _ => exact .rfl
  payload w h := by simp only [PlannedWriteRequest.payload, show w.table = .holdingRegisters from h]; rfl
  cells work mem mem' h hcells j hj := by
    cases work with
    | coils work => cases h
    | holding work => exact hcells j hj

/-! ## One completion -/

open StoreForwardBridge

variable {b b' : StoreForwardBridge} {r : Res} {w : PlannedWriteRequest}

/-- A decision that marks the range of `w`. -/
structure CompletionDecision.Marks (d : CompletionDecision) (w : PlannedWriteRequest) : Prop where
  current : d.current = true
  identity : d.identity = w.identity
  action : d.appliedAction = .markAppliedRange

theorem recordApplied_none {caches : Caches} {mem : Memory} {d : CompletionDecision}
    (h : d.current = false ∨ d.appliedAction = .none) : recordApplied caches mem w d = mem := by
  unfold recordApplied
  split
  · exact applyAppliedImageTransition_none h
  · exact applyAppliedImageTransition_none h
  · rfl

/-- **A call records what it completed as applied**, and nothing else. -/
theorem StoreForwardBridge.Step.recorded {mem : Memory} {op : Op} (hs : Step b ⟨mem, op⟩ r b') (caches : Caches) :
    (∃ w d, appliedWrite ⟨mem, op⟩ r = some w ∧ d.Marks w ∧
      CachedBridge.recordCompletion caches mem op r = recordApplied caches mem w d) ∨
    (appliedWrite ⟨mem, op⟩ r = none ∧ CachedBridge.recordCompletion caches mem op r = mem) := by
  cases hs with
  | refused hr hq =>
    refine Or.inr ⟨by simp [appliedWrite, Log.writeAnswer_refused hr], ?_⟩
    cases op with
    | complete a outcome session =>
      cases r with
      | completion r => exact recordApplied_none (Or.inl (by rw [(hq r rfl).1]; rfl))
      | _ => rfl
    | _ => rfl
  | pollCompleted => exact Or.inr ⟨rfl, recordApplied_none (Or.inl rfl)⟩
  | @settled _ a outcome =>
    by_cases hout : outcome = .applied
    · subst hout
      exact Or.inl ⟨a.write, decisionFor a.write .applied, rfl, ⟨rfl, rfl, rfl⟩, rfl⟩
    · refine Or.inr ⟨?_, recordApplied_none (Or.inr ?_)⟩
      · simp [appliedWrite, writeAnswer, settledResult, Taken, Answer.Applied, hout]
      · simp [settledResult, decisionFor, hout]
  | stale => exact Or.inr ⟨rfl, recordApplied_none (Or.inl rfl)⟩
  | dropped hop =>
    refine Or.inr ⟨rfl, ?_⟩
    rcases hop with rfl | ⟨_, rfl, _⟩ <;> rfl
  | reset hop => exact Or.inr ⟨rfl, by rw [show op = .reset from hop]; rfl⟩
  | _ => exact Or.inr ⟨rfl, rfl⟩

/-! ## One step, seen from an element type -/

section
variable (Value : Type) [CachedElement Value]

/-- What a step does to the images of one element type. -/
inductive Effect (caches : Caches) (s : CachedBridge) : Input → Output → CachedBridge → Prop
  | moved (op : CacheOp) : Effect caches s (CachedElement.request Value op)
      (.moved (op.perform (caches.of Value) s.memory).1)
      { s with memory := (op.perform (caches.of Value) s.memory).2 }
  | marked {op r b w} (hs : Step s.bridge ⟨s.memory, op⟩ r b) (hw : appliedWrite ⟨s.memory, op⟩ r = some w)
      (ht : w.table = WorkTraits.table Value) : Effect caches s (.call op) (.called ⟨s.memory, op⟩ r)
      ⟨b, ((caches.of Value).markApplied s.memory w.upstreamStart w.payload w.quantity).2⟩
  | same {input out s'}
      (hout : ∀ c r w, out = .called c r → appliedWrite c r = some w → w.table ≠ WorkTraits.table Value)
      (hv : (caches.of Value).visible.Same s.memory s'.memory)
      (ha : (caches.of Value).applied.Same s.memory s'.memory) :
      Effect caches s input out s'

variable [LawfulElement Value]

/-- **Every step has one of these effects.** -/
theorem exec_effect (caches : Caches) {s : CachedBridge} (hs : s.bridge.Coherent) (input : Input)
    (hspared : ∀ mem, input = .store mem → caches.Spared s.memory mem) :
    Effect Value caches s input (CachedBridge.exec caches s input).1 (CachedBridge.exec caches s input).2 := by
  by_cases hreq : ∃ op, input = CachedElement.request Value op
  · obtain ⟨op, rfl⟩ := hreq
    rw [LawfulElement.requested]
    exact .moved op
  by_cases hcall : ∃ op, input = .call op
  · obtain ⟨op, rfl⟩ := hcall
    have hstep := exec_step hs ⟨s.memory, op⟩
    rcases hstep.recorded caches with ⟨w, d, hw, hd, hrec⟩ | ⟨hnone, hrec⟩
    · by_cases ht : w.table = WorkTraits.table Value
      · simp only [CachedBridge.exec, hrec, @LawfulElement.recorded Value _ _ _ _ _ _ ht,
          applyAppliedImageTransition_mark hd.current hd.identity hd.action ht, @LawfulElement.payload Value _ _ w ht]
        exact .marked hstep hw ht
      · have huntouched := @LawfulElement.recorded_other Value _ _ caches s.memory w d ht
        rw [← hrec] at huntouched
        refine .same (fun c r w' he hw' => ?_) (.of_untouched huntouched _) (.of_untouched huntouched _)
        cases he
        rw [hw] at hw'
        cases hw'
        exact ht
    · refine .same (fun c r w' he hw' => ?_) ?_ ?_
      · cases he
        rw [hnone] at hw'
        cases hw'
      · simp only [CachedBridge.exec, hrec]
        exact .refl _ _
      · simp only [CachedBridge.exec, hrec]
        exact .refl _ _
  have hnocall : ∀ c r, (CachedBridge.exec caches s input).1 ≠ .called c r := by
    intro c r
    cases input with
    | call op => exact absurd ⟨op, rfl⟩ hcall
    | _ => exact nofun
  by_cases hstore : ∃ mem, input = .store mem
  · obtain ⟨mem, rfl⟩ := hstore
    have hsame := @LawfulElement.spared Value _ _ caches s.memory mem (hspared mem rfl)
    exact .same (fun c r w he => absurd he (hnocall c r)) hsame.1 hsame.2
  · have huntouched := @LawfulElement.other Value _ _ caches s input
      ⟨fun op e => hreq ⟨op, e⟩, fun op e => hcall ⟨op, e⟩, fun mem e => hstore ⟨mem, e⟩⟩
    exact .same (fun c r w he => absurd he (hnocall c r)) (.of_untouched huntouched _) (.of_untouched huntouched _)

end

end ModbusRTUBridge
