import ModbusRTUBridge.Memory
/-!
# Downstream requests and their execution (`DownstreamExecutor.h`)

The executor is a template over its backend. Here a backend is a record of the operations
the template asks for, over any state `σ` the backend may keep; a method that is `const` in
the contract only reads that state.
-/

namespace ModbusRTUBridge

inductive DownstreamOperation where
  | readCoils
  | readDiscreteInputs
  | readHoldingRegisters
  | readInputRegisters
  | writeSingleCoil
  | writeSingleHoldingRegister
  | writeMultipleCoils
  | writeMultipleHoldingRegisters
  | unknown (raw : UInt8)
deriving DecidableEq, Repr, Inhabited

structure DownstreamRequest where
  sequence : UInt32 := 0
  operation : DownstreamOperation := .readCoils
  endpointId : UInt8 := 0
  startAddress : UInt16 := 0
  quantity : UInt16 := 0
  coilBuffer : Ptr := .null
  registerBuffer : Ptr := .null
  coilValue : Bool := false
  registerValue : UInt16 := 0
  consistencyContext : Ptr := .null
deriving DecidableEq, Repr, Inhabited

inductive DownstreamRequestStatus where
  | valid | invalidQuantity | invalidBuffer | invalidOperation
deriving DecidableEq, Repr

def validateDownstreamRequest (request : DownstreamRequest) : DownstreamRequestStatus :=
  match request.operation with
  | .readCoils | .readDiscreteInputs | .writeMultipleCoils =>
    if request.quantity = 0 then .invalidQuantity
    else if request.coilBuffer ≠ .null then .valid else .invalidBuffer
  | .readHoldingRegisters | .readInputRegisters | .writeMultipleHoldingRegisters =>
    if request.quantity = 0 then .invalidQuantity
    else if request.registerBuffer ≠ .null then .valid else .invalidBuffer
  | .writeSingleCoil | .writeSingleHoldingRegister => .valid
  | .unknown _ => .invalidOperation

structure DownstreamCompletion (Result : Type) where
  sequence : UInt32
  result : Result
  exceptionCode : UInt8
deriving DecidableEq, Repr

/-- The backend contract (`DownstreamExecutor.h:102-117`). -/
structure Backend (σ Result : Type) where
  invalidQuantityResult : σ → Result
  invalidBufferResult : σ → Result
  invalidOperationResult : σ → Result
  exceptionCode : σ → UInt8
  readCoils : DownstreamRequest → σ → Result × σ
  readDiscreteInputs : DownstreamRequest → σ → Result × σ
  readHoldingRegisters : DownstreamRequest → σ → Result × σ
  readInputRegisters : DownstreamRequest → σ → Result × σ
  writeSingleCoil : DownstreamRequest → σ → Result × σ
  writeSingleHoldingRegister : DownstreamRequest → σ → Result × σ
  writeMultipleCoils : DownstreamRequest → σ → Result × σ
  writeMultipleHoldingRegisters : DownstreamRequest → σ → Result × σ

section
variable {σ Result : Type} (backend : Backend σ Result)

/-- The operation `switch`. -/
def executeValidatedDownstreamRequest (request : DownstreamRequest) (s : σ) :
    DownstreamCompletion Result × σ :=
  let (result, s) := match request.operation with
    | .readCoils => backend.readCoils request s
    | .readDiscreteInputs => backend.readDiscreteInputs request s
    | .readHoldingRegisters => backend.readHoldingRegisters request s
    | .readInputRegisters => backend.readInputRegisters request s
    | .writeSingleCoil => backend.writeSingleCoil request s
    | .writeSingleHoldingRegister => backend.writeSingleHoldingRegister request s
    | .writeMultipleCoils => backend.writeMultipleCoils request s
    | .writeMultipleHoldingRegisters => backend.writeMultipleHoldingRegisters request s
    | .unknown _ => (backend.invalidOperationResult s, s)
  (⟨request.sequence, result, backend.exceptionCode s⟩, s)

def executeDownstreamRequest (request : DownstreamRequest) (s : σ) : DownstreamCompletion Result × σ :=
  match validateDownstreamRequest request with
  | .invalidQuantity => (⟨request.sequence, backend.invalidQuantityResult s, 0⟩, s)
  | .invalidBuffer => (⟨request.sequence, backend.invalidBufferResult s, 0⟩, s)
  | .invalidOperation => (⟨request.sequence, backend.invalidOperationResult s, 0⟩, s)
  | .valid => executeValidatedDownstreamRequest backend request s

theorem executeDownstreamRequest_sequence (request : DownstreamRequest) (s : σ) :
    (executeDownstreamRequest backend request s).1.sequence = request.sequence := by
  unfold executeDownstreamRequest
  cases validateDownstreamRequest request <;> rfl

end

end ModbusRTUBridge
