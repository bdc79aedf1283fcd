import ModbusRTUBridge.Translation
import ModbusRTUBridge.Adapter
import ModbusRTUBridge.AppliedImage
/-!
# The gateway: a facade, its caches, and the devices behind a master

Everything the guide puts together (`include/modbus_rtu_bridge/README.md`): the facade and the
caller's caches on one side, the executor, the adapter and a master on the other, and the caller
in between who has an admitted action executed, as often as it likes, before it reports an outcome.
The frame of an attempt may be lost on its way; then no device carries it out.
-/

namespace ModbusRTUBridge

open StoreForwardBridge

/-! ## The master's side -/

section
variable {σ Result : Type}

/-- What the methods of a master do to the elements stored so far. -/
structure ModbusRTUMaster.Stores (master : ModbusRTUMaster σ Result) (mem : Memory) (written : σ → List ElementWrite) :
    Prop where
  readCoils : ∀ e a p q s, written (master.readCoils e a p q s).2 = written s
  readDiscreteInputs : ∀ e a p q s, written (master.readDiscreteInputs e a p q s).2 = written s
  readHoldingRegisters : ∀ e a p q s, written (master.readHoldingRegisters e a p q s).2 = written s
  readInputRegisters : ∀ e a p q s, written (master.readInputRegisters e a p q s).2 = written s
  writeSingleCoil : ∀ e a v s, written (master.writeSingleCoil e a v s).2 = written s ++ [⟨e, a.toNat, .coil v⟩]
  writeSingleHoldingRegister : ∀ e a v s,
    written (master.writeSingleHoldingRegister e a v s).2 = written s ++ [⟨e, a.toNat, .register v⟩]
  writeMultipleCoils : ∀ e a p (q : UInt16) s, written (master.writeMultipleCoils e a p q s).2 =
    written s ++ (List.range q.toNat).map fun j => ⟨e, a.toNat + j, .coil (mem.coil (p.add j))⟩
  writeMultipleHoldingRegisters : ∀ e a p (q : UInt16) s, written (master.writeMultipleHoldingRegisters e a p q s).2 =
    written s ++ (List.range q.toNat).map fun j => ⟨e, a.toNat + j, .register (mem.holding (p.add j))⟩

variable {master : ModbusRTUMaster σ Result} {mem : Memory} {written : σ → List ElementWrite}

theorem ModbusRTUMaster.Stores.adapter (h : master.Stores mem written) (codes : ModbusRTUMasterResultCodes Result) :
    (ModbusRTUMasterBackend master codes).Stores mem written :=
  ⟨fun _ => h.writeSingleCoil _ _ _, fun _ => h.writeSingleHoldingRegister _ _ _, fun _ => h.writeMultipleCoils _ _ _ _,
    fun _ => h.writeMultipleHoldingRegisters _ _ _ _⟩

/-- A poll stores nothing. -/
theorem ModbusRTUMaster.Stores.poll (h : master.Stores mem written) (codes : ModbusRTUMasterResultCodes Result)
    {request : DownstreamRequest} (hop : isPollOperation request.operation = true) (s : σ) :
    written (executeOn master codes s request).2 = written s := by
  cases hc : request.masterCall with
  | none => rw [(executeOn_refused s hc).1]
  | some c =>
    rw [executeOn_call s hc]
    unfold DownstreamRequest.masterCall at hc
    cases ho : request.operation <;> simp only [ho, isPollOperation, reduceCtorEq] at hop
    all_goals
      simp only [ho, Option.ite_none_left_eq_some] at hc
      obtain ⟨_, hc⟩ := hc
      cases hc
    · exact h.readCoils _ _ _ _ _
    · exact h.readDiscreteInputs _ _ _ _ _
    · exact h.readHoldingRegisters _ _ _ _ _
    · exact h.readInputRegisters _ _ _ _ _

end

/-! ## The gateway -/

structure Gateway (σ : Type) where
  cached : CachedBridge
  devices : σ

namespace Gateway

inductive Input where
  | facade (input : CachedBridge.Input)
  /-- The action's request is executed; `reaches` says whether its frame gets through. -/
  | attempt (a : StoreForwardAction) (reaches : Bool)

inductive Output (Result : Type) where
  | facade (output : CachedBridge.Output)
  | attempted (completion : DownstreamCompletion Result)
  | lost

section
variable {σ Result : Type}

/-- The master reads payloads from the memory of the moment. -/
def exec (caches : Caches) (master : Memory → ModbusRTUMaster σ Result) (codes : ModbusRTUMasterResultCodes Result)
    (s : Gateway σ) : Input → Output Result × Gateway σ
  | .facade input =>
    (.facade (CachedBridge.exec caches s.cached input).1, { s with cached := (CachedBridge.exec caches s.cached input).2 })
  | .attempt a true =>
    let r := executeOn (master s.cached.memory) codes s.devices a.downstream
    (.attempted r.1, { s with devices := r.2 })
  | .attempt _ false => (.lost, s)

end

/-! ## What the caller knows -/

/-- An outcome by which the device did not carry out the request. -/
def provesUnapplied : DownstreamOutcome → Bool
  | .definitelyNotSent | .failedAfterSend => true
  | _ => false

/-- The addresses whose elements in the devices are not known, after an answer: those of a write
applied are known again, those of a write that may have been carried out are not. -/
def settleDoubt (doubt : RegisterTable → Nat → Bool) (x : Answer) : RegisterTable → Nat → Bool := fun t k =>
  if x.write.Covers t k then !decide x.Applied && (doubt t k || !provesUnapplied x.outcome) else doubt t k

structure Log where
  cached : CacheLog := {}
  /-- The retained write was carried out since its admission. -/
  sent : Bool := false
  doubt : RegisterTable → Nat → Bool := fun _ _ => false

/-- The answer to a write, if that is what was returned. -/
def answered : CachedBridge.Output → Option Answer
  | .called c r => writeAnswer c r
  | _ => none

def Output.answer {Result : Type} : Output Result → Option Answer
  | .facade output => answered output
  | _ => none

/-- The input has the frame of a write get through. -/
def Input.carries : Input → Bool
  | .attempt a reaches => reaches && a.kind == .forwardWrite
  | .facade _ => false

def Log.observe {Result : Type} (g : Log) : Input → Output Result → Log
  | .facade input, .facade output =>
    match answered output with
    | some x => { cached := g.cached.observe input output, sent := false, doubt := settleDoubt g.doubt x }
    | none => { g with cached := g.cached.observe input output }
  | .attempt a reaches, _ => { g with sent := g.sent || (reaches && a.kind == .forwardWrite) }
  | _, _ => g

section
variable {Result : Type} {g : Log} {input : CachedBridge.Input} {output : CachedBridge.Output}

theorem Log.observe_cached (g : Log) (input : CachedBridge.Input) (output : CachedBridge.Output) :
    (g.observe (.facade input) (.facade output : Output Result)).cached = g.cached.observe input output := by
  simp only [Log.observe]
  split <;> rfl

theorem Log.observe_unanswered (hx : answered output = none) :
    g.observe (.facade input) (.facade output : Output Result) = { g with cached := g.cached.observe input output } := by
  simp only [Log.observe, hx]

theorem Log.observe_answered {x : Answer} (hx : answered output = some x) :
    g.observe (.facade input) (.facade output : Output Result) =
      { cached := g.cached.observe input output, sent := false, doubt := settleDoubt g.doubt x } := by
  simp only [Log.observe, hx]

theorem Log.observe_silent (g : Log) (input : Input) {out : Output Result} (hx : out.answer = none) :
    (g.observe input out).sent = (g.sent || input.carries) ∧ (g.observe input out).doubt = g.doubt := by
  cases input with
  | attempt a reaches => exact ⟨rfl, rfl⟩
  | facade input =>
    rw [Input.carries, Bool.or_false]
    cases out with
    | facade output => rw [Log.observe_unanswered hx]; exact ⟨rfl, rfl⟩
    | _ => exact ⟨rfl, rfl⟩

theorem Log.observe_carried {input : Input} (out : Output Result) (h : input.carries = true) :
    g.observe input out = { g with sent := true } := by
  cases input with
  | attempt a reaches =>
    have hreaches : (reaches && a.kind == .forwardWrite) = true := h
    simp only [Log.observe, hreaches, Bool.or_true]
  | facade input => cases h

end

/-! ## The caller's side of the contract -/

/-- Applied is what was carried out, and what is proved not to be was not. -/
def Truthful (sent : Bool) (outcome : DownstreamOutcome) : Prop :=
  (outcome = .applied → sent = true) ∧ (provesUnapplied outcome = true → sent = false)

instance (sent : Bool) (outcome : DownstreamOutcome) : Decidable (Truthful sent outcome) := by
  unfold Truthful; infer_instance

/-- The action an input completes, and the outcome it reports. -/
def report : CachedBridge.Input → Option (StoreForwardAction × DownstreamOutcome)
  | .call (.complete a outcome _) => some (a, outcome)
  | _ => none

section
variable {σ Result : Type}

/-- Snapshots are kept, images spared, outcomes truthful; only the retained action is executed. -/
def Honest (caches : Caches) (s : Gateway σ) (g : Log) : Input → Prop
  | .facade input => CachedBridge.Honest caches s.cached g.cached input ∧
    ∀ x ∈ report input, s.cached.bridge.outstanding = some x.1 → Truthful g.sent x.2
  | .attempt a _ => s.cached.bridge.inFlight = true ∧ s.cached.bridge.inFlightAction = a ∧
    ∀ i ∈ g.cached.log.queued, i.work.SameCells s.cached.memory i.memory

instance (caches : Caches) (s : Gateway σ) (g : Log) (input : Input) : Decidable (Honest caches s g input) := by
  unfold Honest; cases input <;> infer_instance

abbrev run (caches : Caches) (master : Memory → ModbusRTUMaster σ Result) (codes : ModbusRTUMasterResultCodes Result)
    (s : Gateway σ) (inputs : List Input) : Gateway σ := Machine.final (exec caches master codes) s inputs

def log (caches : Caches) (master : Memory → ModbusRTUMaster σ Result) (codes : ModbusRTUMasterResultCodes Result)
    (s : Gateway σ) (inputs : List Input) : Log :=
  Machine.observe Log.observe {} (Machine.trace (exec caches master codes) s inputs)

/-- A run in which the caller keeps its side. -/
abbrev Keeps (caches : Caches) (master : Memory → ModbusRTUMaster σ Result) (codes : ModbusRTUMasterResultCodes Result)
    (s : Gateway σ) (inputs : List Input) : Prop :=
  Machine.Meets (exec caches master codes) (Honest caches) Log.observe s {} inputs

end

end Gateway

/-! ## A gateway for the tests -/

/-- A master whose devices carry out everything, over a list of what they stored. -/
def testRTUMaster (mem : Memory) : ModbusRTUMaster (List ElementWrite) Unit where
  readCoils _ _ _ _ s := ((), s)
  readDiscreteInputs _ _ _ _ s := ((), s)
  readHoldingRegisters _ _ _ _ s := ((), s)
  readInputRegisters _ _ _ _ s := ((), s)
  writeSingleCoil e a v s := ((), s ++ [⟨e, a.toNat, .coil v⟩])
  writeSingleHoldingRegister e a v s := ((), s ++ [⟨e, a.toNat, .register v⟩])
  writeMultipleCoils e a p q s :=
    ((), s ++ (List.range q.toNat).map fun j => ⟨e, a.toNat + j, .coil (mem.coil (p.add j))⟩)
  writeMultipleHoldingRegisters e a p q s :=
    ((), s ++ (List.range q.toNat).map fun j => ⟨e, a.toNat + j, .register (mem.holding (p.add j))⟩)
  getExceptionResponse _ := 0

theorem testRTUMaster_stores (mem : Memory) : (testRTUMaster mem).Stores mem id :=
  ⟨fun _ _ _ _ _ => rfl, fun _ _ _ _ _ => rfl, fun _ _ _ _ _ => rfl, fun _ _ _ _ _ => rfl, fun _ _ _ _ => rfl,
    fun _ _ _ _ => rfl, fun _ _ _ _ _ => rfl, fun _ _ _ _ _ => rfl⟩

def testGateway : Gateway (List ElementWrite) := ⟨⟨testBridge, testMemory⟩, []⟩

def testCodes : ModbusRTUMasterResultCodes Unit := ⟨(), (), ()⟩

/-- Both works of the test; the fragment after `k` others is executed and ends with `outcome k`. -/
def testTraffic (outcome : Nat → DownstreamOutcome) : List Gateway.Input :=
  (testCalls 0).map (fun c => .facade (.call c.op)) ++ (List.range 3).flatMap fun k =>
    let a := ((testBridge.run (testCalls k)).nextAction testMemory testSession 0 none 0 .null).2
    [.facade (.call (.admitAction a testSession none 0)), .attempt a true,
      .facade (.call (.complete a (outcome k) testSession))]

end ModbusRTUBridge
