import Mathlib.Data.List.Iterate
import ModbusRTUBridge.Delivery
/-!
# Completions are told apart by their sequences

Coil writes, register writes and polls share one sequence domain (`README.md`): the requests
handed out are numbered through, across resets and sessions, and a completion carries the number
of its request. So it names its action, until the 32-bit counter has gone all the way round.
-/

namespace ModbusRTUBridge

namespace StoreForwardBridge

/-- The action a call had admitted for dispatch. -/
def dispatchOf (c : Call) (r : Res) : Option StoreForwardAction :=
  match c.op, r with
  | .admitAction a _ _ _, .actionAdmission .admitted => some a
  | _, _ => none

/-- The actions handed out in a run. -/
def dispatched (b : StoreForwardBridge) (calls : List Call) : List StoreForwardAction :=
  (b.history calls).filterMap fun e => dispatchOf e.input e.output

variable {b b' : StoreForwardBridge} {c : Call} {r : Res} {a : StoreForwardAction}

/-! ## The requests -/

section
variable {Value : Type} [DeviceElement Value] [LawfulDevice Value] [LawfulStored Value] [LawfulPayload Value]

variable (Value) in
/-- The next fragment of a slot is a request the executor takes: the payload is there, whatever the backend. -/
theorem next_valid {p : ForwardPlanner} {s s' : StoreForwardWorkSlot} {mem : Memory} {sequence : UInt32}
    {w : PlannedWriteRequest} (hp : p.RoutesOk) (hok : s.Ok p) (hr : s.remaining ≠ 0) (ht : s.table = WorkTraits.table Value)
    (hseq : sequence ≠ 0) (hn : s.next mem p sequence = (.planned, s', w)) (ctx : Ptr) :
    validateDownstreamRequest (downstreamRequestFor w ctx) = .valid := by
  obtain ⟨hw, hposition⟩ := LawfulDevice.plannable hok ht
  have hcursor := LawfulDevice.next_cursor ht hn
  obtain ⟨r, hf, hplanned⟩ := ForwardPlanner.next_planned hp hw hposition hr mem hseq
  rw [hplanned] at hcursor
  obtain rfl := (Prod.mk.inj (Prod.mk.inj hcursor).2).2
  exact (hf.executes hw ((testRTUMaster_stores mem).adapter testCodes) ctx sequence).valid

end

theorem WriteProposal.valid {mem : Memory} {session : SessionStateView} {now : UInt32} {polls : Storage PollCandidate}
    {n : UInt16} {ctx : Ptr} {front : StoreForwardWorkSlot} (h : b.Coherent) (hf : b.inFlight = false)
    (hw : WriteProposal mem b session now polls n ctx front a) : validateDownstreamRequest a.downstream = .valid := by
  have hmem := List.mem_of_mem_head? hw.head
  have hok := h.filed.slots front hmem
  have hseq : a.sequence ≠ 0 := hw.sequence ▸ nextNonZeroSequence32_ne_zero _
  have hdown : a.downstream = downstreamRequestFor a.write ctx := by rw [hw.shape]
  rw [hdown]
  rcases hok.plannable with ⟨ht, _⟩ | ⟨ht, _⟩
  · exact next_valid Bool h.routes hok (h.unfinished hf hmem) ht hseq hw.next ctx
  · exact next_valid UInt16 h.routes hok (h.unfinished hf hmem) ht hseq hw.next ctx

/-- What is handed out: a request the executor takes, under the action's own sequence. -/
structure HandedOut (a : StoreForwardAction) : Prop where
  valid : validateDownstreamRequest a.downstream = .valid
  request : a.downstream.sequence = a.sequence
  write : a.kind = .forwardWrite → a.write.identity.requestSequence = a.sequence

theorem dispatchOf_eq_none (h : r ≠ .actionAdmission .admitted) : dispatchOf c r = none := by
  unfold dispatchOf
  split
  · exact absurd rfl h
  · rfl

/-- A call hands out the next number, or leaves the domain alone. -/
inductive Numbered (b : StoreForwardBridge) (c : Call) (r : Res) (b' : StoreForwardBridge) : Prop
  | silent (hno : dispatchOf c r = none) (hseq : b'.requestSequence = b.requestSequence)
      (hkept : b'.inFlight = true → b.inFlight = true ∧ b'.inFlightAction = b.inFlightAction)
  | handed (a : StoreForwardAction) (ha : dispatchOf c r = some a) (hout : HandedOut a)
      (hnext : a.sequence = nextNonZeroSequence32 b.requestSequence) (hseq : b'.requestSequence = a.sequence)
      (hkept : b'.inFlightAction = a)

theorem Step.numbered (h : b.Coherent) (hs : Step b c r b') : Numbered b c r b' := by
  have hidle : b.inFlight = false → b.inFlight = true → b'.inFlightAction = b.inFlightAction :=
    fun hf hf' => absurd (hf.symm.trans hf') (by decide)
  cases hs with
  | refused hr =>
    refine .silent (dispatchOf_eq_none fun he => ?_) rfl fun hf => ⟨hf, rfl⟩
    rw [he] at hr
    cases hr
  | admitted => exact .silent rfl rfl fun hf => ⟨hf, rfl⟩
  | skipped hf => exact .silent rfl rfl fun hf' => ⟨hf', hidle hf hf'⟩
  | @pollAdmitted mem a session polls n i hf hp hreq =>
    obtain ⟨hnext, hdown, _, hvalid⟩ := hp.dispatched hreq
    have hkind : a.kind = .poll := by rw [hp.shape]
    exact .handed a rfl ⟨hvalid, by rw [hdown], fun hk => by rw [hkind] at hk; cases hk⟩ hnext rfl rfl
  | @writeAdmitted mem a session polls n s rest hf hw hq =>
    have hid : a.write.identity.requestSequence = a.sequence := by rw [hw.takes.identity]
    have hdown : a.downstream.sequence = a.write.identity.requestSequence := by
      conv => lhs; rw [hw.shape]
      rfl
    exact .handed a rfl ⟨hw.valid h hf, hdown.trans hid, fun _ => hid⟩ hw.sequence rfl rfl
  | pollCompleted => exact .silent rfl rfl nofun
  | settled => exact .silent rfl rfl nofun
  | stale => exact .silent rfl rfl nofun
  | dropped _ hf => exact .silent (dispatchOf_eq_none nofun) rfl fun hf' => ⟨hf', hidle hf hf'⟩
  | reset _ hf => exact .silent (dispatchOf_eq_none nofun) rfl fun hf' => ⟨hf', hidle hf hf'⟩

/-! ## The run -/

/-- **Numbered through**: the actions handed out carry successive numbers. -/
theorem run_dispatched (h : b.Coherent) (calls : List Call) :
    (b.dispatched calls).map (·.sequence) =
      List.iterate nextNonZeroSequence32 (nextNonZeroSequence32 b.requestSequence) (b.dispatched calls).length ∧
    (∀ a ∈ b.dispatched calls, HandedOut a) ∧
    ((b.run calls).inFlight = true → (b.dispatched calls).getLast? = some (b.run calls).inFlightAction ∨
      b.dispatched calls = [] ∧ b.inFlight = true ∧ (b.run calls).inFlightAction = b.inFlightAction) := by
  induction calls generalizing b with
  | nil => exact ⟨rfl, fun a ha => absurd ha List.not_mem_nil, fun hf => Or.inr ⟨rfl, hf, rfl⟩⟩
  | cons c calls ih =>
    have hstep := exec_step h c
    obtain ⟨hnumbers, hall, hlast⟩ := ih (hstep.coherent h)
    cases hstep.numbered h with
    | silent hno hseq hkept =>
      have hsame : b.dispatched (c :: calls) = (b.exec c).2.dispatched calls := List.filterMap_cons_none hno
      rw [hseq] at hnumbers
      rw [hsame]
      refine ⟨hnumbers, hall, fun hf => ?_⟩
      rcases hlast hf with hlast | ⟨hnone, hf', hact⟩
      · exact Or.inl hlast
      · obtain ⟨hf, hact'⟩ := hkept hf'
        exact Or.inr ⟨hnone, hf, hact.trans hact'⟩
    | handed a ha hout hnext hseq hkept =>
      have hmore : b.dispatched (c :: calls) = a :: (b.exec c).2.dispatched calls := List.filterMap_cons_some ha
      rw [hmore]
      refine ⟨?_, ?_, fun hf => ?_⟩
      · rw [List.map_cons, hnumbers, hseq, hnext]
        rfl
      · intro x hx
        rcases List.mem_cons.1 hx with rfl | hx
        · exact hout
        · exact hall x hx
      · refine Or.inl ?_
        rw [List.getLast?_cons]
        rcases hlast hf with hlast | ⟨hnone, _, hact⟩
        · rw [hlast]
          rfl
        · rw [hnone, ← hkept, ← hact]
          rfl

/-- The number of the action handed out after `i` others. -/
theorem dispatched_sequence (hb : b.Deployed) {calls : List Call} {i : Nat} (hi : i < (b.dispatched calls).length) :
    (b.dispatched calls)[i].sequence.toNat = i % revisionCycle + 1 := by
  have hfirst : nextNonZeroSequence32 b.requestSequence = 1 := by
    obtain ⟨_, _, _, _, _, _, rfl⟩ := hb.constructed
    rfl
  have hnumbers := (run_dispatched hb.coherent calls).1
  have hget : ((b.dispatched calls).map (·.sequence))[i]? = some (nextNonZeroSequence32^[i] 1) := by
    rw [hnumbers, hfirst]
    exact List.getElem?_iterate _ _ _ _ hi
  rw [List.getElem?_map, List.getElem?_eq_getElem hi, Option.map_some, Option.some.injEq] at hget
  rw [hget, toNat_iterate_sequence, UInt32.toNat_one, Serial.iterate_next (by decide) (by decide), Nat.sub_self, Nat.zero_add]

/-- **A completion names its action.** Every request handed out in a run is one the executor takes,
and what its execution returns carries the sequence of another action handed out only if the two
are whole rounds of the counter apart; the retained action is the last that was handed out. -/
theorem completions_told_apart {σ Result : Type} (master : ModbusRTUMaster σ Result) (codes : ModbusRTUMasterResultCodes Result)
    (hb : b.Deployed) (calls : List Call) :
    let ds := b.dispatched calls
    (∀ a ∈ ds, HandedOut a) ∧
    ((b.run calls).inFlight = true → ds.getLast? = some (b.run calls).inFlightAction) ∧
    ∀ i j (hi : i < ds.length) (hj : j < ds.length) (s : σ),
      (executeOn master codes s ds[i].downstream).1.sequence = ds[j].sequence ↔ i % revisionCycle = j % revisionCycle := by
  intro ds
  obtain ⟨_, hall, hlast⟩ := run_dispatched hb.coherent calls
  refine ⟨hall, fun hf => ?_, fun i j hi hj s => ?_⟩
  · rcases hlast hf with hlast | ⟨_, hf', _⟩
    · exact hlast
    · exact absurd (hb.revision_one.2.symm.trans hf') (by decide)
  · have hcompletion : (executeOn master codes s ds[i].downstream).1.sequence = ds[i].sequence :=
      (executeDownstreamRequest_sequence _ _ _).trans (hall _ (List.getElem_mem hi)).request
    rw [hcompletion, ← UInt32.toNat_inj, dispatched_sequence hb hi, dispatched_sequence hb hj]
    omega

/-- The three fragments of the test. -/
theorem completions_told_apart_test :
    (testBridge.dispatched (testCalls 3)).length = 3 ∧
    ∀ (h₀ : 0 < (testBridge.dispatched (testCalls 3)).length) (h₂ : 2 < (testBridge.dispatched (testCalls 3)).length) s,
      (executeOn (testRTUMaster testMemory) testCodes s (testBridge.dispatched (testCalls 3))[0].downstream).1.sequence ≠
        (testBridge.dispatched (testCalls 3))[2].sequence := by
  refine ⟨by decide +kernel, fun h₀ h₂ s heq => ?_⟩
  have hround := ((completions_told_apart (testRTUMaster testMemory) testCodes testBridge_deployed (testCalls 3)).2.2
    0 2 h₀ h₂ s).1 heq
  exact absurd hround (by decide)

end StoreForwardBridge

end ModbusRTUBridge
