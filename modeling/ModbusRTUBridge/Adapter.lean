import ModbusRTUBridge.DownstreamExecutor
import ModbusRTUBridge.Lib.Machine
/-!
# The adapter for a Modbus RTU master (`adapters/ModbusRTUMasterBackend.h`)

The adapter turns any class with the eight conventional read and write methods into a backend of
the executor. The class is not part of the repository: here it is a record of its methods over
any state `σ` of its own.
-/

namespace ModbusRTUBridge

/-- The methods the adapter asks of a master. -/
structure ModbusRTUMaster (σ Result : Type) where
  readCoils : UInt8 → UInt16 → Ptr → UInt16 → σ → Result × σ
  readDiscreteInputs : UInt8 → UInt16 → Ptr → UInt16 → σ → Result × σ
  readHoldingRegisters : UInt8 → UInt16 → Ptr → UInt16 → σ → Result × σ
  readInputRegisters : UInt8 → UInt16 → Ptr → UInt16 → σ → Result × σ
  writeSingleCoil : UInt8 → UInt16 → Bool → σ → Result × σ
  writeSingleHoldingRegister : UInt8 → UInt16 → UInt16 → σ → Result × σ
  writeMultipleCoils : UInt8 → UInt16 → Ptr → UInt16 → σ → Result × σ
  writeMultipleHoldingRegisters : UInt8 → UInt16 → Ptr → UInt16 → σ → Result × σ
  getExceptionResponse : σ → UInt8

structure ModbusRTUMasterResultCodes (Result : Type) where
  invalidQuantity : Result
  invalidBuffer : Result
  invalidOperation : Result
deriving DecidableEq, Repr

section
variable {σ Result : Type}

def ModbusRTUMasterBackend (master : ModbusRTUMaster σ Result) (invalidResults : ModbusRTUMasterResultCodes Result) :
    Backend σ Result where
  invalidQuantityResult _ := invalidResults.invalidQuantity
  invalidBufferResult _ := invalidResults.invalidBuffer
  invalidOperationResult _ := invalidResults.invalidOperation
  exceptionCode := master.getExceptionResponse
  readCoils request := master.readCoils request.endpointId request.startAddress request.coilBuffer request.quantity
  readDiscreteInputs request :=
    master.readDiscreteInputs request.endpointId request.startAddress request.coilBuffer request.quantity
  readHoldingRegisters request :=
    master.readHoldingRegisters request.endpointId request.startAddress request.registerBuffer request.quantity
  readInputRegisters request :=
    master.readInputRegisters request.endpointId request.startAddress request.registerBuffer request.quantity
  writeSingleCoil request := master.writeSingleCoil request.endpointId request.startAddress request.coilValue
  writeSingleHoldingRegister request :=
    master.writeSingleHoldingRegister request.endpointId request.startAddress request.registerValue
  writeMultipleCoils request :=
    master.writeMultipleCoils request.endpointId request.startAddress request.coilBuffer request.quantity
  writeMultipleHoldingRegisters request :=
    master.writeMultipleHoldingRegisters request.endpointId request.startAddress request.registerBuffer request.quantity

end

/-! ## The calls a master sees -/

/-- One call of a master's method, with its arguments. -/
inductive MasterCall where
  | readCoils (endpoint : UInt8) (start : UInt16) (buffer : Ptr) (quantity : UInt16)
  | readDiscreteInputs (endpoint : UInt8) (start : UInt16) (buffer : Ptr) (quantity : UInt16)
  | readHoldingRegisters (endpoint : UInt8) (start : UInt16) (buffer : Ptr) (quantity : UInt16)
  | readInputRegisters (endpoint : UInt8) (start : UInt16) (buffer : Ptr) (quantity : UInt16)
  | writeSingleCoil (endpoint : UInt8) (start : UInt16) (value : Bool)
  | writeSingleHoldingRegister (endpoint : UInt8) (start : UInt16) (value : UInt16)
  | writeMultipleCoils (endpoint : UInt8) (start : UInt16) (buffer : Ptr) (quantity : UInt16)
  | writeMultipleHoldingRegisters (endpoint : UInt8) (start : UInt16) (buffer : Ptr) (quantity : UInt16)
deriving DecidableEq, Repr

section
variable {σ Result : Type}

/-- The call, with what the master then says and its exception code. -/
def ModbusRTUMaster.perform (master : ModbusRTUMaster σ Result) (s : σ) (c : MasterCall) : (Result × UInt8) × σ :=
  let (result, s) := match c with
    | .readCoils endpoint start buffer quantity => master.readCoils endpoint start buffer quantity s
    | .readDiscreteInputs endpoint start buffer quantity => master.readDiscreteInputs endpoint start buffer quantity s
    | .readHoldingRegisters endpoint start buffer quantity => master.readHoldingRegisters endpoint start buffer quantity s
    | .readInputRegisters endpoint start buffer quantity => master.readInputRegisters endpoint start buffer quantity s
    | .writeSingleCoil endpoint start value => master.writeSingleCoil endpoint start value s
    | .writeSingleHoldingRegister endpoint start value => master.writeSingleHoldingRegister endpoint start value s
    | .writeMultipleCoils endpoint start buffer quantity => master.writeMultipleCoils endpoint start buffer quantity s
    | .writeMultipleHoldingRegisters endpoint start buffer quantity =>
      master.writeMultipleHoldingRegisters endpoint start buffer quantity s
  ((result, master.getExceptionResponse s), s)

/-- The call a request should come to: none if its operation, its quantity or its buffer is no good. -/
def DownstreamRequest.masterCall (request : DownstreamRequest) : Option MasterCall :=
  let buffered (buffer : Ptr) (call : MasterCall) : Option MasterCall :=
    if request.quantity = 0 ∨ buffer = .null then none else some call
  match request.operation with
  | .readCoils => buffered request.coilBuffer
      (.readCoils request.endpointId request.startAddress request.coilBuffer request.quantity)
  | .readDiscreteInputs => buffered request.coilBuffer
      (.readDiscreteInputs request.endpointId request.startAddress request.coilBuffer request.quantity)
  | .readHoldingRegisters => buffered request.registerBuffer
      (.readHoldingRegisters request.endpointId request.startAddress request.registerBuffer request.quantity)
  | .readInputRegisters => buffered request.registerBuffer
      (.readInputRegisters request.endpointId request.startAddress request.registerBuffer request.quantity)
  | .writeSingleCoil => some (.writeSingleCoil request.endpointId request.startAddress request.coilValue)
  | .writeSingleHoldingRegister =>
    some (.writeSingleHoldingRegister request.endpointId request.startAddress request.registerValue)
  | .writeMultipleCoils => buffered request.coilBuffer
      (.writeMultipleCoils request.endpointId request.startAddress request.coilBuffer request.quantity)
  | .writeMultipleHoldingRegisters => buffered request.registerBuffer
      (.writeMultipleHoldingRegisters request.endpointId request.startAddress request.registerBuffer request.quantity)
  | .unknown _ => none

/-- The code the application chose for a refusal. -/
def ModbusRTUMasterResultCodes.codeOf (codes : ModbusRTUMasterResultCodes Result) :
    DownstreamRequestStatus → Option Result
  | .valid => none
  | .invalidQuantity => some codes.invalidQuantity
  | .invalidBuffer => some codes.invalidBuffer
  | .invalidOperation => some codes.invalidOperation

/-- One request executed through the adapter. -/
def executeOn (master : ModbusRTUMaster σ Result) (codes : ModbusRTUMasterResultCodes Result) (s : σ)
    (request : DownstreamRequest) : DownstreamCompletion Result × σ :=
  executeDownstreamRequest (ModbusRTUMasterBackend master codes) request s

variable {master : ModbusRTUMaster σ Result} {codes : ModbusRTUMasterResultCodes Result} {request : DownstreamRequest}

/-- A request is valid exactly if it comes to a call. -/
theorem masterCall_isSome : request.masterCall.isSome = true ↔ validateDownstreamRequest request = .valid := by
  have hbuffered : ∀ (buffer : Ptr) (c : MasterCall),
      (if request.quantity = 0 ∨ buffer = .null then none else some c).isSome = true ↔
        (if request.quantity = 0 then DownstreamRequestStatus.invalidQuantity
          else if buffer ≠ .null then .valid else .invalidBuffer) = .valid := by
    intro buffer c
    by_cases hq : request.quantity = 0 <;> by_cases hb : buffer = .null <;> simp [hq, hb]
  unfold DownstreamRequest.masterCall validateDownstreamRequest
  cases request.operation <;> first | exact hbuffered _ _ | simp

/-- **One request**: its call and nothing else, or nothing at all. -/
theorem executeOn_call (s : σ) {c : MasterCall} (hc : request.masterCall = some c) :
    executeOn master codes s request =
      (⟨request.sequence, (master.perform s c).1.1, (master.perform s c).1.2⟩, (master.perform s c).2) := by
  have hv : validateDownstreamRequest request = .valid := masterCall_isSome.1 (by rw [hc]; rfl)
  unfold executeOn executeDownstreamRequest
  rw [hv]
  unfold DownstreamRequest.masterCall at hc
  unfold executeValidatedDownstreamRequest
  cases ho : request.operation <;> simp only [ho, Option.ite_none_left_eq_some] at hc ⊢
  case unknown => cases hc
  case writeSingleCoil => cases hc; rfl
  case writeSingleHoldingRegister => cases hc; rfl
  all_goals
    obtain ⟨_, hc⟩ := hc
    cases hc
    rfl

theorem executeOn_refused (s : σ) (hc : request.masterCall = none) :
    (executeOn master codes s request).2 = s ∧ (executeOn master codes s request).1.exceptionCode = 0 ∧
    codes.codeOf (validateDownstreamRequest request) = some (executeOn master codes s request).1.result := by
  have hv : validateDownstreamRequest request ≠ .valid := fun e => by
    have := masterCall_isSome.2 e
    rw [hc] at this
    cases this
  unfold executeOn executeDownstreamRequest
  cases h : validateDownstreamRequest request <;> first | exact absurd h hv | exact ⟨rfl, rfl, rfl⟩

/-- What is left of a completion once the sequence is off: nothing if the request was refused. -/
def answerOf (request : DownstreamRequest) (completion : DownstreamCompletion Result) : Option (Result × UInt8) :=
  request.masterCall.map fun _ => (completion.result, completion.exceptionCode)

/-- **The adapter adds and loses nothing.** Whatever requests are executed through it, in whatever
order, the master sees the calls of the valid ones in that order, each with the request's own
arguments, and its results and exception codes come back as they are; a request that is not valid
comes back with the code chosen for its fault, no exception, and the master untouched. -/
theorem adapter_transparent (master : ModbusRTUMaster σ Result) (codes : ModbusRTUMasterResultCodes Result) (s : σ)
    (requests : List DownstreamRequest) :
    Machine.final (executeOn master codes) s requests =
      Machine.final master.perform s (requests.filterMap (·.masterCall)) ∧
    (Machine.trace (executeOn master codes) s requests).filterMap (fun e => answerOf e.input e.output) =
      (Machine.trace master.perform s (requests.filterMap (·.masterCall))).map Machine.Event.output ∧
    ∀ e ∈ Machine.trace (executeOn master codes) s requests, e.output.sequence = e.input.sequence ∧
      (validateDownstreamRequest e.input ≠ .valid → (executeOn master codes e.before e.input).2 = e.before ∧
        e.output.exceptionCode = 0 ∧ codes.codeOf (validateDownstreamRequest e.input) = some e.output.result) := by
  obtain ⟨hfinal, hanswers⟩ := Machine.translates (executeOn master codes) (f := (·.masterCall)) (g := answerOf)
    (fun s request hc => ⟨(executeOn_refused s hc).1, by simp [answerOf, hc]⟩)
    (fun s request c hc => by
      rw [executeOn_call s hc]
      exact ⟨rfl, by simp [answerOf, hc]⟩) s requests
  refine ⟨hfinal, hanswers, fun e he => ?_⟩
  obtain ⟨_, hout⟩ :=
    Machine.inv_trace (executeOn master codes) (P := fun _ => True) (fun _ _ _ => trivial) trivial requests e he
  rw [hout]
  refine ⟨executeDownstreamRequest_sequence _ _ _, fun hv => executeOn_refused e.before ?_⟩
  cases hc : e.input.masterCall with
  | none => rfl
  | some c => exact absurd (masterCall_isSome.1 (by rw [hc]; rfl)) hv

end

end ModbusRTUBridge
