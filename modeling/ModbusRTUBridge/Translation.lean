import ModbusRTUBridge.Fragments
import ModbusRTUBridge.Steps
/-!
# From an upstream range to element writes

The master behind the executor is a parameter: `Stores` says what its write calls do to the
devices. Planned, turned into requests and executed, a work writes every element of its snapshot
once, in order, at the address its route translates it to.
-/

namespace ModbusRTUBridge

/-! ## The master -/

/-- A coil or a register. -/
inductive Element where
  | coil (value : Bool)
  | register (value : UInt16)
deriving DecidableEq, Repr

/-- One element stored by a device. -/
structure ElementWrite where
  endpointId : UInt8
  address : Nat
  element : Element
deriving DecidableEq, Repr

section
variable {σ Result : Type}

/-- The write call of an operation. -/
def Backend.writeCall (backend : Backend σ Result) : DownstreamOperation → Option (DownstreamRequest → σ → Result × σ)
  | .writeSingleCoil => some backend.writeSingleCoil
  | .writeSingleHoldingRegister => some backend.writeSingleHoldingRegister
  | .writeMultipleCoils => some backend.writeMultipleCoils
  | .writeMultipleHoldingRegisters => some backend.writeMultipleHoldingRegisters
  | _ => none

/-- What the write calls store: `written` lists the elements stored so far. -/
structure Backend.Stores (backend : Backend σ Result) (mem : Memory) (written : σ → List ElementWrite) : Prop where
  writeSingleCoil : ∀ request s, written (backend.writeSingleCoil request s).2 =
    written s ++ [⟨request.endpointId, request.startAddress.toNat, .coil request.coilValue⟩]
  writeSingleHoldingRegister : ∀ request s, written (backend.writeSingleHoldingRegister request s).2 =
    written s ++ [⟨request.endpointId, request.startAddress.toNat, .register request.registerValue⟩]
  writeMultipleCoils : ∀ request s, written (backend.writeMultipleCoils request s).2 =
    written s ++ (List.range request.quantity.toNat).map fun j =>
      ⟨request.endpointId, request.startAddress.toNat + j, .coil (mem.coil (request.coilBuffer.add j))⟩
  writeMultipleHoldingRegisters : ∀ request s, written (backend.writeMultipleHoldingRegisters request s).2 =
    written s ++ (List.range request.quantity.toNat).map fun j =>
      ⟨request.endpointId, request.startAddress.toNat + j, .register (mem.holding (request.registerBuffer.add j))⟩

/-- Executing the request is one write call, and nothing else. -/
def OneWrite (backend : Backend σ Result) (request : DownstreamRequest) (s : σ) : Prop :=
  ∃ call, backend.writeCall request.operation = some call ∧
    executeDownstreamRequest backend request s =
      (⟨request.sequence, (call request s).1, backend.exceptionCode (call request s).2⟩, (call request s).2)

/-- The requests of the fragments, executed one after the other. -/
def executeAll (backend : Backend σ Result) (ctx : Ptr) (ws : List PlannedWriteRequest) (s : σ) : σ :=
  ws.foldl (fun s w => (executeDownstreamRequest backend (downstreamRequestFor w ctx) s).2) s

end

/-! ## One fragment -/

/-- The element types a master stores. -/
class StoredElement (Value : Type) extends AppliedPayload Value where
  element : Value → Element

instance : StoredElement Bool where
  element := .coil

instance : StoredElement UInt16 where
  element := .register

section
variable {Value : Type} [StoredElement Value]

/-- The elements a fragment should store. -/
def PlannedWriteRequest.elements (Value : Type) [StoredElement Value] (mem : Memory) (w : PlannedWriteRequest) :
    List ElementWrite :=
  (List.range w.quantity.toNat).map fun j =>
    ⟨w.endpointId, w.downstreamStart.toNat + j,
      StoredElement.element (MemoryCell.load mem ((AppliedPayload.values Value w).add j) : Value)⟩

/-- A fragment with its payload: executed, it is one write call that stores its elements. -/
structure Executes {σ Result : Type} (Value : Type) [StoredElement Value] (backend : Backend σ Result) (mem : Memory)
    (written : σ → List ElementWrite) (ctx : Ptr) (w : PlannedWriteRequest) : Prop where
  valid : validateDownstreamRequest (downstreamRequestFor w ctx) = .valid
  oneWrite : ∀ s, OneWrite backend (downstreamRequestFor w ctx) s
  stored : ∀ s, written (executeDownstreamRequest backend (downstreamRequestFor w ctx) s).2 =
    written s ++ w.elements Value mem

end

section
variable {σ Result : Type} {backend : Backend σ Result} {mem : Memory} {written : σ → List ElementWrite}
  {request : DownstreamRequest}

/-- A valid write request is executed by its write call. -/
theorem OneWrite.of_valid (call : DownstreamRequest → σ → Result × σ) (hv : validateDownstreamRequest request = .valid)
    (hc : backend.writeCall request.operation = some call) (s : σ) : executeDownstreamRequest backend request s =
      (⟨request.sequence, (call request s).1, backend.exceptionCode (call request s).2⟩, (call request s).2) := by
  unfold executeDownstreamRequest
  rw [hv]
  cases ho : request.operation <;> rw [ho] at hc <;> cases hc <;> simp only [executeValidatedDownstreamRequest, ho]

theorem Executes.of_call {Value : Type} [StoredElement Value] {w : PlannedWriteRequest} {ctx : Ptr}
    (call : DownstreamRequest → σ → Result × σ) (hv : validateDownstreamRequest (downstreamRequestFor w ctx) = .valid)
    (hc : backend.writeCall w.operation = some call)
    (hs : ∀ s, written (call (downstreamRequestFor w ctx) s).2 = written s ++ w.elements Value mem) :
    Executes Value backend mem written ctx w := by
  have hexec := OneWrite.of_valid call hv hc
  exact ⟨hv, fun s => ⟨call, hc, hexec s⟩, fun s => by rw [hexec]; exact hs s⟩

end

/-- What the proofs use of a stored element type. -/
class LawfulStored (Value : Type) [StoredElement Value] : Prop where
  executes : ∀ {σ Result : Type} {backend : Backend σ Result} {mem : Memory} {written : σ → List ElementWrite}
    (_ : backend.Stores mem written) (ctx values : Ptr) (q : UInt16) (w : PlannedWriteRequest), w.quantity = q →
    values ≠ .null → q ≠ 0 → Executes Value backend mem written ctx (WorkTraits.populatePayload Value mem values q w)

instance : LawfulStored Bool where
  executes {σ Result backend mem written} h ctx values q w he hv hq := by
    subst he
    by_cases hone : w.quantity = 1
    · refine .of_call backend.writeSingleCoil ?_ ?_ fun s => ?_
      · simp [validateDownstreamRequest, downstreamRequestFor, WorkTraits.populatePayload, hone]
      · simp [WorkTraits.populatePayload, hone, Backend.writeCall]
      · rw [h.writeSingleCoil]
        simp [PlannedWriteRequest.elements, downstreamRequestFor, WorkTraits.populatePayload, hone]
        rfl
    · refine .of_call backend.writeMultipleCoils ?_ ?_ fun s => ?_
      · simp [validateDownstreamRequest, downstreamRequestFor, WorkTraits.populatePayload, hone, hq, hv]
      · simp [WorkTraits.populatePayload, hone, Backend.writeCall]
      · rw [h.writeMultipleCoils]
        rfl

instance : LawfulStored UInt16 where
  executes {σ Result backend mem written} h ctx values q w he hv hq := by
    subst he
    by_cases hone : w.quantity = 1
    · refine .of_call backend.writeSingleHoldingRegister ?_ ?_ fun s => ?_
      · simp [validateDownstreamRequest, downstreamRequestFor, WorkTraits.populatePayload, hone]
      · simp [WorkTraits.populatePayload, hone, Backend.writeCall]
      · rw [h.writeSingleHoldingRegister]
        simp [PlannedWriteRequest.elements, downstreamRequestFor, WorkTraits.populatePayload, hone]
        rfl
    · refine .of_call backend.writeMultipleHoldingRegisters ?_ ?_ fun s => ?_
      · simp [validateDownstreamRequest, downstreamRequestFor, WorkTraits.populatePayload, hone, hq, hv]
      · simp [WorkTraits.populatePayload, hone, Backend.writeCall]
      · rw [h.writeMultipleHoldingRegisters]
        rfl

/-! ## Where an element belongs -/

/-- Route `r` is the one that maps the upstream address. -/
structure RouteTableView.Owns (v : RouteTableView) (t : RegisterTable) (address r : Nat) : Prop where
  route : r < v.routeCount.toNat
  start_le : (v.upstream t r).start.toNat ≤ address
  lt_stop : address < (v.upstream t r).stop
  unique : ∀ r' < v.routeCount.toNat, (v.upstream t r').start.toNat ≤ address → address < (v.upstream t r').stop → r' = r

/-- `x` stores the `i`-th element of the work where its route says. -/
def Translated {Value : Type} [StoredElement Value] (p : ForwardPlanner) (mem : Memory) (work : IngressWorkView Value)
    (i : Nat) (x : ElementWrite) : Prop :=
  ∃ r, p.routes.Owns (WorkTraits.table Value) (work.start.toNat + i) r ∧ x.address ≤ 65535 ∧
    x = { endpointId := (p.routes.route r).endpointId
          address := (p.routes.downstream (WorkTraits.table Value) r).start.toNat +
            (work.start.toNat + i - (p.routes.upstream (WorkTraits.table Value) r).start.toNat)
          element := StoredElement.element (MemoryCell.load mem (work.snapshot.values.add i) : Value) }

/-- The writes are those of the elements from the `i`-th on. -/
def TranslatedFrom {Value : Type} [StoredElement Value] (p : ForwardPlanner) (mem : Memory) (work : IngressWorkView Value)
    (i : Nat) (xs : List ElementWrite) : Prop :=
  ∀ j x, xs[j]? = some x → Translated p mem work (i + j) x

section
variable {Value : Type} [StoredElement Value] [LawfulPayload Value] {p : ForwardPlanner} {mem : Memory}
  {c c' : ForwardCursor Value} {work : IngressWorkView Value} {i : Nat} {xs ys : List ElementWrite}

omit [LawfulPayload Value] in
theorem TranslatedFrom.append (hx : TranslatedFrom p mem work i xs) (hy : TranslatedFrom p mem work (i + xs.length) ys) :
    TranslatedFrom p mem work i (xs ++ ys) := by
  intro j x hj
  by_cases hlt : j < xs.length
  · rw [List.getElem?_append_left hlt] at hj
    exact hx j x hj
  · rw [List.getElem?_append_right (by omega)] at hj
    have hy' := hy _ x hj
    rwa [show i + xs.length + (j - xs.length) = i + j by omega] at hy'

omit [StoredElement Value] [LawfulPayload Value] in
/-- A route that maps an address owns its range from there on. -/
theorem RouteTableView.Owns.of_maps (hp : p.RoutesOk) {t : RegisterTable} (ht : t.index < RegisterTable.count) {a : UInt16}
    {r address : Nat} (hm : p.routes.Maps t a r) (hlo : a.toNat ≤ address) (hhi : address < (p.routes.upstream t r).stop) :
    p.routes.Owns t address r := by
  have hsorted := (RouteTableView.validate_tableOk hp.valid ht).sorted
  have hstart := ((AddressRange.contains_iff _ _).1 hm.2).1
  exact ⟨hm.1, by omega, hhi, fun r' hr' hlo' hhi' =>
    hsorted.holds_unique hr' hm.1 ⟨hlo', hhi'⟩ ⟨Nat.le_trans hstart hlo, hhi⟩⟩

open ForwardPlanner (Position)

/-- **One fragment** stores the elements from the cursor on. -/
theorem ForwardPlanner.Fragment.translated (hp : p.RoutesOk) (hw : p.Plannable c.work) (hc : Position c)
    (hr : c.remaining ≠ 0) {r q : UInt16} (hf : p.Fragment c r q) (sequence : UInt32) :
    TranslatedFrom p mem c.work c.sourceOffset.toNat
      ((fragmentRequest mem p c r q sequence).elements Value mem) := by
  obtain ⟨_, _, _, _, hq, _, _, hvalues⟩ := fragmentRequest_fields mem p c r q sequence
  have hendpoint : (fragmentRequest mem p c r q sequence).endpointId = (p.routes.route r.toNat).endpointId := by
    unfold fragmentRequest; rw [LawfulPayload.keeps]
  have hdown : (fragmentRequest mem p c r q sequence).downstreamStart =
      (p.routes.downstream (WorkTraits.table Value) r.toNat).start +
        (c.nextAddress - (p.routes.upstream (WorkTraits.table Value) r.toNat).start) := by
    unfold fragmentRequest; rw [LawfulPayload.keeps]
  have hindex : (WorkTraits.table Value).index < RegisterTable.count := LawfulPayload.table_index
  have hok := RouteTableView.validate_tableOk hp.valid hindex
  have haddress := hc.toNat_nextAddress hw.range_le hr
  have hcontains := (AddressRange.contains_iff _ _).1 hf.maps.2
  have hwithin := hf.within
  have hcounts : (p.routes.upstream (WorkTraits.table Value) r.toNat).count.toNat =
      (p.routes.downstream (WorkTraits.table Value) r.toNat).count.toNat :=
    congrArg UInt16.toNat (hok.counts r.toNat hf.maps.1)
  have hstop : (p.routes.downstream (WorkTraits.table Value) r.toNat).start.toNat +
      (p.routes.downstream (WorkTraits.table Value) r.toNat).count.toNat ≤ 65536 := hok.downstream_le r.toNat hf.maps.1
  simp only [AddressRange.stop] at hwithin
  -- the offset into the route is the same on both sides
  have hoffset : (c.nextAddress - (p.routes.upstream (WorkTraits.table Value) r.toNat).start).toNat =
      c.nextAddress.toNat - (p.routes.upstream (WorkTraits.table Value) r.toNat).start.toNat :=
    toNat_sub_of_le hcontains.1
  have hstart : (fragmentRequest mem p c r q sequence).downstreamStart.toNat =
      (p.routes.downstream (WorkTraits.table Value) r.toNat).start.toNat +
        (c.nextAddress.toNat - (p.routes.upstream (WorkTraits.table Value) r.toNat).start.toNat) := by
    rw [hdown, UInt16.toNat_add, hoffset]
    omega
  intro j x hj
  obtain ⟨hlt, rfl⟩ := List.getElem?_eq_some_iff.1 hj
  simp only [PlannedWriteRequest.elements, List.length_map, List.length_range, hq] at hlt
  refine ⟨r.toNat, .of_maps hp hindex hf.maps (by omega) (by simp only [AddressRange.stop]; omega), ?_, ?_⟩
  · simp only [PlannedWriteRequest.elements, List.getElem_map, List.getElem_range, hstart]
    omega
  · simp only [PlannedWriteRequest.elements, List.getElem_map, List.getElem_range, hstart, hendpoint, hvalues, Ptr.add_add,
      ElementWrite.mk.injEq, true_and, and_true]
    omega

/-! ## All fragments -/

variable {σ Result : Type} {backend : Backend σ Result} {written : σ → List ElementWrite} {ctx : Ptr}

omit [LawfulPayload Value] in
/-- A fragment is executed by one write call. -/
theorem ForwardPlanner.Fragment.executes [LawfulStored Value] (hw : p.Plannable c.work) {r q : UInt16}
    (hf : p.Fragment c r q) (hb : backend.Stores mem written) (ctx : Ptr) (sequence : UInt32) :
    Executes Value backend mem written ctx (fragmentRequest mem p c r q sequence) := by
  have hq : q ≠ 0 := fun e => by
    have hpos := hf.pos
    rw [e] at hpos
    cases hpos
  exact LawfulStored.executes hb ctx _ q _ rfl (Ptr.add_ne_null hw.snapshot_ne _) hq

omit [LawfulPayload Value] in
/-- Executing fragments one after the other stores the elements of all of them. -/
theorem executeAll_written {ws : List PlannedWriteRequest} (h : ∀ w ∈ ws, Executes Value backend mem written ctx w) (s : σ) :
    written (executeAll backend ctx ws s) = written s ++ ws.flatMap (·.elements Value mem) := by
  induction ws generalizing s with
  | nil => simp [executeAll]
  | cons w ws ih =>
    have hrest := ih (fun w hw => h w (List.mem_cons_of_mem _ hw))
      (executeDownstreamRequest backend (downstreamRequestFor w ctx) s).2
    rw [(h w List.mem_cons_self).stored] at hrest
    rw [List.flatMap_cons, ← List.append_assoc]
    exact hrest

/-- What a stretch of planning leaves: the fragments store the elements up to the new cursor. -/
structure Stretch (p : ForwardPlanner) (mem : Memory) (c c' : ForwardCursor Value) (ws : List PlannedWriteRequest) : Prop where
  work : c'.work = c.work
  position : Position c'
  forward : c.sourceOffset.toNat + (ws.flatMap (·.elements Value mem)).length = c'.sourceOffset.toNat
  translated : TranslatedFrom p mem c.work c.sourceOffset.toNat (ws.flatMap (·.elements Value mem))

/-- **Planning to the end.** -/
theorem replay_stretch [LawfulStored Value] (hp : p.RoutesOk) (hw : p.Plannable c.work) (hc : Position c)
    (hb : backend.Stores mem written) (ctx : Ptr) {sequences : List UInt32} (hs : ∀ q ∈ sequences, q ≠ 0) :
    Stretch p mem c (ForwardPlanner.replay mem p c sequences).2 (ForwardPlanner.replay mem p c sequences).1 ∧
    (∀ w ∈ (ForwardPlanner.replay mem p c sequences).1, Executes Value backend mem written ctx w) ∧
    (c.remaining.toNat ≤ sequences.length → (ForwardPlanner.replay mem p c sequences).2.remaining = 0) := by
  induction sequences generalizing c with
  | nil =>
    refine ⟨⟨rfl, hc, rfl, fun _ _ h => by cases h⟩, by simp [ForwardPlanner.replay], ?_⟩
    intro hle
    exact UInt16.toNat_inj.1 (Nat.le_zero.1 hle)
  | cons q sequences ih =>
    by_cases hr : c.remaining = 0
    · have hstop : ForwardPlanner.replay mem p c (q :: sequences) = ([], { c with active := false }) := by
        simp only [ForwardPlanner.replay, ForwardPlanner.next_eq, hr]
        simp
      rw [hstop]
      refine ⟨⟨rfl, ⟨hc.split, hc.address, hc.index_le, ?_⟩, rfl, fun _ _ h => by cases h⟩, by simp, fun _ => hr⟩
      simp [hr]
    · obtain ⟨r, hf, hn⟩ := ForwardPlanner.next_planned hp hw hc hr mem (hs q List.mem_cons_self)
      generalize p.fragmentSize c r = size at hf hn
      have hc' := ForwardPlanner.advance_position hc hr hf.pos hf.le_remaining
      have hoff : (ForwardPlanner.advance c size).sourceOffset.toNat = c.sourceOffset.toNat + size.toNat := by
        have hsplit := hc.split
        have hlt := c.work.count.toNat_lt
        have hle := hf.le_remaining
        exact toNat_add_of_lt (by omega)
      have hlen : ((ForwardPlanner.fragmentRequest mem p c r size q).elements Value mem).length = size.toNat := by
        simp [PlannedWriteRequest.elements, (ForwardPlanner.fragmentRequest_fields mem p c r size q).2.2.2.2.1]
      obtain ⟨h, hexec, hend⟩ := ih (c := ForwardPlanner.advance c size) hw hc' fun q hq =>
        hs q (List.mem_cons_of_mem _ hq)
      have hforward := h.forward
      have htranslated := h.translated
      rw [hoff] at hforward htranslated
      rw [ForwardPlanner.replay_cons hn]
      refine ⟨⟨h.work, h.position, ?_, ?_⟩, fun w hw' => ?_, fun hle => hend ?_⟩
      · simp only [List.flatMap_cons, List.length_append, hlen]
        omega
      · rw [List.flatMap_cons]
        refine (hf.translated hp hw hc hr q).append ?_
        rw [hlen]
        exact htranslated
      · rcases List.mem_cons.1 hw' with rfl | hw'
        · exact hf.executes hw hb ctx q
        · exact hexec w hw'
      · have hsub := ForwardPlanner.toNat_remaining_sub hf.le_remaining
        have hpos := hf.pos
        rw [List.length_cons] at hle
        show (c.remaining - size).toNat ≤ _
        omega

/-- The work arrives: all its elements, in order, each where it belongs. -/
structure Delivers (p : ForwardPlanner) (mem : Memory) (sequences : List UInt32) (backend : Backend σ Result)
    (written : σ → List ElementWrite) (ctx : Ptr) (work : IngressWorkView Value) : Prop where
  /-- A sequence for every element is enough to come to the end. -/
  ends : work.count.toNat ≤ sequences.length → (ForwardPlanner.replay mem p (p.begin work).2 sequences).2.active = false
  valid : ∀ w ∈ p.planned mem work sequences, validateDownstreamRequest (downstreamRequestFor w ctx) = .valid
  oneWrite : ∀ w ∈ p.planned mem work sequences, ∀ s, OneWrite backend (downstreamRequestFor w ctx) s
  /-- At the end the elements stored are those of the work. -/
  elements : (ForwardPlanner.replay mem p (p.begin work).2 sequences).2.active = false → ∀ s, ∃ xs,
    written (executeAll backend ctx (p.planned mem work sequences) s) = written s ++ xs ∧
    xs.length = work.count.toNat ∧ ∀ i x, xs[i]? = some x → Translated p mem work i x

theorem delivers [LawfulStored Value] (hp : p.RoutesOk) (hb : backend.Stores mem written) (ctx : Ptr)
    {sequences : List UInt32} (hs : ∀ q ∈ sequences, q ≠ 0) (hready : (p.begin work).1 = .ready) :
    Delivers p mem sequences backend written ctx work := by
  have hw := ForwardPlanner.begin_ready hp hready
  have hcursor : (p.begin work).2 = ForwardPlanner.startCursor work := by
    rw [ForwardPlanner.begin_status_cursor, if_pos hready]
  obtain ⟨h, hexec, hend⟩ := replay_stretch (c := ForwardPlanner.startCursor work) hp hw
    (ForwardPlanner.startCursor_position hw.count_ne) hb ctx hs
  have hplanned : p.planned mem work sequences =
      (ForwardPlanner.replay mem p (ForwardPlanner.startCursor work) sequences).1 := by
    unfold ForwardPlanner.planned
    rw [hcursor]
  have hactive := h.position.active_iff
  refine ⟨?_, ?_, ?_, ?_⟩
  · intro hle
    rw [hcursor]
    have hzero := hend hle
    cases ha : (ForwardPlanner.replay mem p (ForwardPlanner.startCursor work) sequences).2.active with
    | false => rfl
    | true => exact absurd hzero (hactive.1 ha)
  · intro w hw
    exact (hexec w (hplanned ▸ hw)).valid
  · intro w hw
    exact (hexec w (hplanned ▸ hw)).oneWrite
  · intro hdone s
    rw [hcursor] at hdone
    have hzero : (ForwardPlanner.replay mem p (ForwardPlanner.startCursor work) sequences).2.remaining = 0 :=
      Decidable.not_not.1 fun hne => by
        rw [hactive.2 hne] at hdone
        cases hdone
    have hstart : (ForwardPlanner.startCursor work).sourceOffset.toNat = 0 := rfl
    have hforward := h.forward
    have hsplit := h.position.split
    rw [h.work, hzero, UInt16.toNat_zero, show (ForwardPlanner.startCursor work).work = work from rfl] at hsplit
    rw [hplanned]
    refine ⟨_, executeAll_written hexec s, ?_, ?_⟩
    · omega
    · intro i x hx
      have htranslated := h.translated i x hx
      simpa [ForwardPlanner.startCursor] using htranslated

end

/-- **End-to-end payload translation.** Whatever sequences the fragments of a ready work are
given, executing their requests makes one write call each and stores every element of the
snapshot, in order, at the address of the endpoint its route translates it to; no address wraps. -/
theorem payload_translated {σ Result : Type} {p : ForwardPlanner} (hv : p.routes.validate = .valid)
    (hn : p.routes.routeCount.toNat ≤ 32767) {mem : Memory} {backend : Backend σ Result} {written : σ → List ElementWrite}
    (hb : backend.Stores mem written) (ctx : Ptr) {sequences : List UInt32} (hs : ∀ q ∈ sequences, q ≠ 0) :
    (∀ work : CoilIngressWorkView, (p.begin work).1 = .ready → Delivers p mem sequences backend written ctx work) ∧
    (∀ work : HoldingIngressWorkView, (p.begin work).1 = .ready → Delivers p mem sequences backend written ctx work) :=
  ⟨fun _ => delivers ⟨hv, hn⟩ hb ctx hs, fun _ => delivers ⟨hv, hn⟩ hb ctx hs⟩

/-- A master that keeps a list of what it stored. -/
def testMaster (mem : Memory) : Backend (List ElementWrite) Unit where
  invalidQuantityResult _ := ()
  invalidBufferResult _ := ()
  invalidOperationResult _ := ()
  exceptionCode _ := 0
  readCoils _ s := ((), s)
  readDiscreteInputs _ s := ((), s)
  readHoldingRegisters _ s := ((), s)
  readInputRegisters _ s := ((), s)
  writeSingleCoil request s := ((), s ++ [⟨request.endpointId, request.startAddress.toNat, .coil request.coilValue⟩])
  writeSingleHoldingRegister request s :=
    ((), s ++ [⟨request.endpointId, request.startAddress.toNat, .register request.registerValue⟩])
  writeMultipleCoils request s := ((), s ++ (List.range request.quantity.toNat).map fun j =>
    ⟨request.endpointId, request.startAddress.toNat + j, .coil (mem.coil (request.coilBuffer.add j))⟩)
  writeMultipleHoldingRegisters request s := ((), s ++ (List.range request.quantity.toNat).map fun j =>
    ⟨request.endpointId, request.startAddress.toNat + j, .register (mem.holding (request.registerBuffer.add j))⟩)

theorem testMaster_stores (mem : Memory) : (testMaster mem).Stores mem id :=
  ⟨fun _ _ => rfl, fun _ _ => rfl, fun _ _ => rfl, fun _ _ => rfl⟩

open StoreForwardBridge in
/-- The first work of the two-phase test, over both of its endpoints. -/
theorem payload_translated_test :
    Delivers testBridge.forwardPlanner testMemory [7, 8, 9, 10] (testMaster testMemory) id .null firstWork ∧
    executeAll (testMaster testMemory) .null (testBridge.forwardPlanner.planned testMemory firstWork [7, 8, 9, 10]) [] =
      [⟨10, 0, .register 1⟩, ⟨10, 1, .register 2⟩, ⟨11, 20, .register 3⟩, ⟨11, 21, .register 4⟩] :=
  ⟨(payload_translated (by decide) (by decide) (testMaster_stores testMemory) .null (by simp)).2 firstWork
    (by decide +kernel), by decide +kernel⟩

end ModbusRTUBridge
