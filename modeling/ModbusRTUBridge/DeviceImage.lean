import ModbusRTUBridge.Delivery
/-!
# The devices follow the applied image

At the end of every run of a gateway whose caller reports what happened, an address holds in the
devices what the applied image says, unless it is in doubt: a write over it is out, or ended
without anyone knowing whether it was carried out (`InStep`).
-/

namespace ModbusRTUBridge

open StoreForwardBridge

variable {p : ForwardPlanner} {b b' : StoreForwardBridge} {g : Log} {c : Call} {r : Res}

/-! ## What the pieces of a gateway grow by -/

section
variable {Result : Type} {g : Gateway.Log}

/-- Without an answer there is no piece. -/
theorem Gateway.Log.pieces_silent {input : Gateway.Input} {out : Gateway.Output Result} (hx : out.answer = none) :
    (g.observe input out).cached.pieces = g.cached.pieces := by
  cases input with
  | attempt a reaches => rfl
  | facade f =>
    cases out with
    | facade o =>
      rw [Gateway.Log.observe_unanswered hx]
      cases o with
      | called c r =>
        have hx : writeAnswer c r = none := hx
        simp [CacheLog.observe, CacheLog.newPiece, appliedWrite, hx]
      | _ => rfl
    | _ => rfl

/-- A write answered as applied is one more piece of the work in front. -/
theorem Gateway.Log.pieces_answered (Result : Type) (f : CachedBridge.Input) {o : CachedBridge.Output} {x : Answer}
    {i : Instance} (hx : Gateway.answered o = some x) (hi : g.cached.log.front = some i) :
    (g.observe (.facade f) (.facade o : Gateway.Output Result)).cached.pieces =
      g.cached.pieces ++ if x.Applied then [(i, x.write)] else [] := by
  rw [Gateway.Log.observe_answered hx]
  cases o with
  | called c r =>
    have hx : writeAnswer c r = some x := hx
    obtain ⟨j, hj, rfl⟩ := Option.map_eq_some_iff.1 hi
    by_cases hx' : x.Applied <;> simp [CacheLog.observe, CacheLog.newPiece, appliedWrite, hj, hx, hx']
  | _ => cases hx

end

/-! ## The invariant -/

section
variable {σ Result : Type} (Value : Type) [DeviceElement Value]

/-- A write over the address is out and was carried out. -/
def Gateway.Unsettled (s : Gateway σ) (g : Gateway.Log) (t : RegisterTable) (address : Nat) : Prop :=
  g.sent = true ∧ ∃ a, s.cached.bridge.outstanding = some a ∧ a.write.Covers t address

instance (s : Gateway σ) (g : Gateway.Log) (t : RegisterTable) (address : Nat) : Decidable (s.Unsettled g t address) :=
  decidable_of_iff (g.sent = true ∧ ∃ a ∈ s.cached.bridge.outstanding, a.write.Covers t address) Iff.rfl

/-- What an address that is alone in its place holds. -/
structure HoldsAt (caches : Caches) (mem₀ : Memory) (written : σ → List ElementWrite) (s : Gateway σ) (g : Gateway.Log)
    (place : UInt8 × Nat) (address : Nat) : Prop where
  /-- While a write over it is out, the element that carries. -/
  unsettled : s.Unsettled g (WorkTraits.table Value) address → ∀ i, g.cached.log.front = some i →
    held Value (written s.devices) place ((caches.of Value).applied.cell mem₀ address) = i.value Value address
  /-- Else what the last write applied carried, unless that is in doubt. -/
  settled : ¬ s.Unsettled g (WorkTraits.table Value) address → g.doubt (WorkTraits.table Value) address = false →
    held Value (written s.devices) place ((caches.of Value).applied.cell mem₀ address) =
      carried Value g.cached.pieces address ((caches.of Value).applied.cell mem₀ address)

structure InStep (p : ForwardPlanner) (caches : Caches) (mem₀ : Memory) (written : σ → List ElementWrite) (s : Gateway σ)
    (g : Gateway.Log) : Prop where
  mirrors : Mirrors Value p caches mem₀ s.cached g.cached
  underway : Underway p s g
  holds : ∀ address r, p.routes.Owns (WorkTraits.table Value) address r → p.routes.Alone (WorkTraits.table Value) address →
    HoldsAt Value caches mem₀ written s g (p.routes.place (WorkTraits.table Value) r address) address

variable {Value} [LawfulElement Value] [LawfulDevice Value] {caches : Caches} {mem₀ : Memory}
  {written : σ → List ElementWrite} {s s' : Gateway σ} {g : Gateway.Log} {master : Memory → ModbusRTUMaster σ Result}
  {codes : ModbusRTUMasterResultCodes Result} {a : StoreForwardAction} {i : Instance} {input : Gateway.Input}
  {out : Gateway.Output Result} {place : UInt8 × Nat} {address : Nat}

omit [LawfulElement Value] [LawfulDevice Value] in
/-- What moves neither the write that is out nor the devices. -/
theorem HoldsAt.quiet (h : HoldsAt Value caches mem₀ written s g place address) (hx : out.answer = none)
    (hno : input.carries = false) (hw : written s'.devices = written s.devices)
    (ho : s'.cached.bridge.outstanding = s.cached.bridge.outstanding)
    (hg : g.sent = true → (g.observe input out).cached.log.front = g.cached.log.front) :
    HoldsAt Value caches mem₀ written s' (g.observe input out) place address := by
  obtain ⟨hsent, hdoubt⟩ := g.observe_silent input hx
  rw [hno, Bool.or_false] at hsent
  have hunsettled : s'.Unsettled (g.observe input out) (WorkTraits.table Value) address ↔
      s.Unsettled g (WorkTraits.table Value) address := by
    unfold Gateway.Unsettled
    rw [hsent, ho]
  refine ⟨fun hu i hi => ?_, fun hu hd => ?_⟩
  · rw [hunsettled] at hu
    rw [hg hu.1] at hi
    rw [hw]
    exact h.unsettled hu i hi
  · rw [hunsettled] at hu
    rw [hw, Gateway.Log.pieces_silent hx]
    exact h.settled hu (hdoubt ▸ hd)

omit [LawfulElement Value] [LawfulDevice Value] in
/-- **A write is carried out**: what its places hold now, the work in front carries. -/
theorem HoldsAt.deposited (h : HoldsAt Value caches mem₀ written s g place address) (hyes : input.carries = true)
    (hw : written s'.devices = written s.devices ++ i.deposits a.write) (hs : s'.cached = s.cached)
    (ho : s.cached.bridge.outstanding = some a) (hi : g.cached.log.front = some i)
    (hdeposits : ∀ v : Value, held Value (i.deposits a.write) place v =
      if a.write.Covers (WorkTraits.table Value) address then i.value Value address else v) :
    HoldsAt Value caches mem₀ written s' (g.observe input out) place address := by
  rw [Gateway.Log.observe_carried out hyes]
  refine ⟨?_, fun hclear hdoubt => ?_⟩
  · rintro ⟨_, a', ho', hcov⟩ j hj
    rw [hs] at ho'
    obtain rfl : a' = a := Option.some.inj (ho'.symm.trans ho)
    obtain rfl : j = i := Option.some.inj (hj.symm.trans hi)
    rw [hw, held_append, hdeposits, if_pos hcov]
  · have hcov : ¬ a.write.Covers (WorkTraits.table Value) address := fun hcov =>
      hclear ⟨rfl, a, by rw [hs]; exact ho, hcov⟩
    rw [hw, held_append, hdeposits, if_neg hcov]
    refine h.settled ?_ hdoubt
    rintro ⟨_, a', ho', hcov'⟩
    obtain rfl : a' = a := Option.some.inj (ho'.symm.trans ho)
    exact hcov hcov'

omit [LawfulElement Value] [LawfulDevice Value] in
/-- A write that is issued was not carried out yet. -/
theorem HoldsAt.issued (h : HoldsAt Value caches mem₀ written s g place address) (hx : out.answer = none)
    (hno : input.carries = false) (hw : written s'.devices = written s.devices) (hsent : g.sent = false) :
    HoldsAt Value caches mem₀ written s' (g.observe input out) place address := by
  obtain ⟨hsent', hdoubt⟩ := g.observe_silent input hx
  rw [hno, hsent, Bool.or_false] at hsent'
  refine ⟨fun hu => absurd (hsent'.symm.trans hu.1) nofun, fun _ hd => ?_⟩
  rw [hw, Gateway.Log.pieces_silent hx]
  exact h.settled (fun hu => absurd (hsent.symm.trans hu.1) nofun) (hdoubt ▸ hd)

omit [LawfulElement Value] [LawfulDevice Value] in
/-- **A truthful answer**: an address out of doubt holds what the pieces then carry. -/
theorem HoldsAt.answered (h : HoldsAt Value caches mem₀ written s g place address) {f : CachedBridge.Input}
    {o : CachedBridge.Output} {x : Answer} (hx : Gateway.answered o = some x) (hw : written s'.devices = written s.devices)
    (ho : s.cached.bridge.outstanding = some a) (hi : g.cached.log.front = some i) (hwrite : x.write = a.write)
    (htruthful : Gateway.Truthful g.sent x.outcome) :
    HoldsAt Value caches mem₀ written s' (g.observe (.facade f) (.facade o : Gateway.Output Result)) place address := by
  have hpieces := Gateway.Log.pieces_answered Result f hx hi
  have hone : ∀ v : Value, carried Value [(i, x.write)] address v =
      if x.write.Covers (WorkTraits.table Value) address then i.value Value address else v := fun _ => rfl
  rw [Gateway.Log.observe_answered hx] at hpieces ⊢
  refine ⟨fun hu => absurd hu.1 nofun, fun _ hd => ?_⟩
  simp only at hpieces hd
  rw [hw, hpieces, carried_append]
  unfold Gateway.settleDoubt at hd
  by_cases hcov : x.write.Covers (WorkTraits.table Value) address
  · rw [if_pos hcov] at hd
    by_cases happlied : x.Applied
    · rw [if_pos happlied, hone, if_pos hcov]
      exact h.unsettled ⟨htruthful.1 happlied.2, a, ho, hwrite ▸ hcov⟩ i hi
    · -- it was not carried out, so nothing over the address was
      simp only [happlied, decide_false, Bool.not_false, Bool.true_and, Bool.or_eq_false_iff, Bool.not_eq_false'] at hd
      have hsent := htruthful.2 hd.2
      rw [if_neg happlied]
      exact h.settled (fun hu => absurd (hsent.symm.trans hu.1) nofun) hd.1
  · rw [if_neg hcov] at hd
    have hclear : ¬ s.Unsettled g (WorkTraits.table Value) address := by
      rintro ⟨_, a', ha', hcov'⟩
      obtain rfl : a' = a := Option.some.inj (ha'.symm.trans ho)
      exact hcov (hwrite ▸ hcov')
    rw [h.settled hclear hd]
    split
    · rw [hone, if_neg hcov]
    · rfl

omit [LawfulDevice Value] in
theorem InStep.mirrors_step (hfit : (caches.of Value).Fits p.routes (WorkTraits.table Value))
    (h : InStep Value p caches mem₀ written s g) (hm : Gateway.Honest caches s g input) :
    Mirrors Value p caches mem₀ (Gateway.exec caches master codes s input).2.cached
      (g.observe input (Gateway.exec caches master codes s input).1).cached := by
  cases input with
  | attempt a reaches => cases reaches <;> exact h.mirrors
  | facade input =>
    simp only [Gateway.exec, Gateway.Log.observe_cached]
    exact h.mirrors.step hfit hm.1

/-- **Every step** leaves the devices in step. -/
theorem InStep.step (hfit : (caches.of Value).Fits p.routes (WorkTraits.table Value))
    (hmaster : ∀ mem, (master mem).Stores mem written) (h : InStep Value p caches mem₀ written s g)
    (hm : Gateway.Honest caches s g input) :
    InStep Value p caches mem₀ written (Gateway.exec caches master codes s input).2
      (g.observe input (Gateway.exec caches master codes s input).1) := by
  have hstep := h.underway.gatewayStep hmaster codes hm
  refine ⟨h.mirrors_step hfit hm, h.underway.step hmaster codes hm, fun address r hown halone => ?_⟩
  have hholds := h.holds address r hown halone
  generalize Gateway.exec caches master codes s input = next at *
  obtain ⟨out, s'⟩ := next
  cases hstep with
  | quiet hx hno hw ho hg => exact hholds.quiet hx hno hw ho fun hs => hg (h.underway.sent hs)
  | carried a i hx hyes hw hs ho hi hc =>
    exact hholds.deposited hyes hw hs ho hi (hc.held_deposits hown halone)
  | issued a i hx hno hw ho ho' hi hc =>
    have hsent : g.sent ≠ true := fun hs => h.underway.sent hs ho
    exact hholds.issued hx hno hw (by simpa using hsent)
  | answered a i x f o hinput hout hx hw ho ho' hi hc hwrite htruthful =>
    subst hinput hout
    exact hholds.answered hx hw ho hi hwrite htruthful

/-! ## Every run -/

omit [LawfulElement Value] [LawfulDevice Value] in
theorem InStep.init (hb : s.cached.bridge.Deployed) (hempty : written s.devices = []) :
    InStep Value s.cached.bridge.forwardPlanner caches s.cached.memory written s {} := by
  refine ⟨.init hb caches, .init hb, fun address route _ _ => ⟨fun hu => absurd hu.1 nofun, fun _ _ => ?_⟩⟩
  rw [hempty]
  rfl

theorem run_inStep (hmaster : ∀ mem, (master mem).Stores mem written) (hb : s.cached.bridge.Deployed)
    (hfit : (caches.of Value).Fits s.cached.bridge.forwardPlanner.routes (WorkTraits.table Value))
    (hempty : written s.devices = []) {inputs : List Gateway.Input} (hm : s.Keeps caches master codes inputs) :
    InStep Value s.cached.bridge.forwardPlanner caches s.cached.memory written (s.run caches master codes inputs)
      (s.log caches master codes inputs) :=
  Machine.simulates_final_of (Gateway.exec caches master codes) (fun _ _ _ hok h => h.step hfit hmaster hok)
    (.init hb hempty) hm

variable (Value) in
/-- The devices hold what the applied image says, at every address of its own that passes `sure`. -/
def DevicesAgree (caches : Caches) (written : σ → List ElementWrite) (s s' : Gateway σ)
    (sure : RegisterTable → Nat → Prop) : Prop :=
  ∀ address route, s.cached.bridge.forwardPlanner.routes.Owns (WorkTraits.table Value) address route →
    s.cached.bridge.forwardPlanner.routes.Alone (WorkTraits.table Value) address → sure (WorkTraits.table Value) address →
    held Value (written s'.devices) (s.cached.bridge.forwardPlanner.routes.place (WorkTraits.table Value) route address)
      ((caches.of Value).applied.cell s.cached.memory address) = (caches.of Value).applied.cell s'.cached.memory address

omit [LawfulElement Value] [LawfulDevice Value] in
theorem InStep.agree (hfit : (caches.of Value).Fits s.cached.bridge.forwardPlanner.routes (WorkTraits.table Value))
    (h : InStep Value s.cached.bridge.forwardPlanner caches s.cached.memory written s' g) :
    DevicesAgree Value caches written s s' fun t address => ¬ s'.Unsettled g t address ∧ g.doubt t address = false := by
  intro address route hown halone ⟨hsettled, hdoubt⟩
  rw [(h.holds address route hown halone).settled hsettled hdoubt, h.mirrors.applied address (hown.within hfit)]

end

section
variable {σ Result : Type} {caches : Caches} {written : σ → List ElementWrite} {s : Gateway σ}
  {master : Memory → ModbusRTUMaster σ Result} {codes : ModbusRTUMasterResultCodes Result} {inputs : List Gateway.Input}

/-- **The devices follow the applied image.** The devices start in step: they have stored nothing yet,
and a place nothing is stored at counts as holding what the applied image held at the start. The
caches reach over every routed address, and the caller keeps its side (`Gateway.Keeps`). Then each
address with a place of its own holds in the devices what the applied image says, unless a write
over it is out that was carried out, or the address is in doubt: a write over it was answered with an
outcome that does not prove it was never carried out, and none over it was recorded as applied then
or since. A later write that was certainly not sent does not settle a doubt, and a write reported
`Applied` but answered `StaleSession` raises one. -/
theorem devices_follow_applied_image (hmaster : ∀ mem, (master mem).Stores mem written) (hb : s.cached.bridge.Deployed)
    (hcoils : caches.coils.Fits s.cached.bridge.forwardPlanner.routes .coils)
    (hholding : caches.holding.Fits s.cached.bridge.forwardPlanner.routes .holdingRegisters)
    (hempty : written s.devices = []) (hm : s.Keeps caches master codes inputs) :
    let s' := s.run caches master codes inputs
    let g := s.log caches master codes inputs
    let sure := fun t address => ¬ s'.Unsettled g t address ∧ g.doubt t address = false
    DevicesAgree Bool caches written s s' sure ∧ DevicesAgree UInt16 caches written s s' sure :=
  ⟨(run_inStep hmaster hb hcoils hempty hm).agree hcoils, (run_inStep hmaster hb hholding hempty hm).agree hholding⟩

/-- The second work's only fragment is carried out but ends in uncertainty, so address 100 is in doubt. -/
theorem devices_follow_applied_image_test :
    let inputs := testTraffic fun k => if k = 2 then .sendUncertain else .applied
    let s' := testGateway.run testCaches testRTUMaster testCodes inputs
    let g := testGateway.log testCaches testRTUMaster testCodes inputs
    DevicesAgree UInt16 testCaches id testGateway s'
      (fun t address => ¬ s'.Unsettled g t address ∧ g.doubt t address = false) ∧
    (List.range' 100 4).map (fun k => (g.doubt .holdingRegisters k, testCaches.holding.applied.cell s'.cached.memory k)) =
      [(true, 1), (false, 2), (false, 3), (false, 4)] ∧
    s'.devices.getLast? = some ⟨10, 0, .register 1⟩ :=
  ⟨(devices_follow_applied_image testRTUMaster_stores testBridge_deployed ⟨by decide, by decide +kernel, by decide +kernel⟩
      ⟨by decide, by decide +kernel, by decide +kernel⟩ rfl (by decide +kernel)).2, by decide +kernel, by decide +kernel⟩

/-- Every write that was answered was applied or is known not to have been carried out. -/
def Gateway.Certain (caches : Caches) (master : Memory → ModbusRTUMaster σ Result) (codes : ModbusRTUMasterResultCodes Result)
    (s : Gateway σ) (inputs : List Gateway.Input) : Prop :=
  ∀ e ∈ Machine.trace (Gateway.exec caches master codes) s inputs, ∀ x ∈ e.output.answer,
    x.Applied ∨ Gateway.provesUnapplied x.outcome = true

instance : Decidable (s.Certain caches master codes inputs) := by unfold Gateway.Certain; infer_instance

theorem Gateway.Certain.doubt (h : s.Certain caches master codes inputs) (t : RegisterTable) (address : Nat) :
    (s.log caches master codes inputs).doubt t address = false := by
  refine Machine.observe_inv (P := fun g : Gateway.Log => g.doubt t address = false) (fun g e he hg => ?_) rfl
  have hcertain := h e he
  cases hi : e.input with
  | attempt a reaches => exact hg
  | facade input =>
    cases ho : e.output with
    | facade output =>
      rw [ho] at hcertain
      cases hx : Gateway.answered output with
      | none =>
        rw [Gateway.Log.observe_unanswered hx]
        exact hg
      | some x =>
        rw [Gateway.Log.observe_answered hx]
        show Gateway.settleDoubt g.doubt x t address = false
        unfold Gateway.settleDoubt
        rcases hcertain x hx with h | h <;> simp [h, hg]
    | _ => exact hg

/-- **Certainty brings the two together.** The devices start in step, the caches reach over every routed
address and the caller keeps its side. If every write answered was applied or is known not to have
been carried out, then whenever nothing is out the devices hold what the applied image says, at
every routed address that has a place of its own. -/
theorem certain_runs_agree (hmaster : ∀ mem, (master mem).Stores mem written) (hb : s.cached.bridge.Deployed)
    (hcoils : caches.coils.Fits s.cached.bridge.forwardPlanner.routes .coils)
    (hholding : caches.holding.Fits s.cached.bridge.forwardPlanner.routes .holdingRegisters)
    (hempty : written s.devices = []) (hm : s.Keeps caches master codes inputs)
    (hcertain : s.Certain caches master codes inputs)
    (hidle : (s.run caches master codes inputs).cached.bridge.inFlight = false) :
    let s' := s.run caches master codes inputs
    DevicesAgree Bool caches written s s' (fun _ _ => True) ∧ DevicesAgree UInt16 caches written s s' (fun _ _ => True) := by
  have hclear : ∀ t address,
      ¬ (s.run caches master codes inputs).Unsettled (s.log caches master codes inputs) t address := by
    rintro t address ⟨_, a, ha, _⟩
    rw [outstanding_idle hidle] at ha
    cases ha
  have hbits := (run_inStep hmaster hb hcoils hempty hm).agree hcoils
  have hregisters := (run_inStep hmaster hb hholding hempty hm).agree hholding
  exact ⟨fun address route hown halone _ => hbits address route hown halone ⟨hclear _ _, hcertain.doubt _ _⟩,
    fun address route hown halone _ => hregisters address route hown halone ⟨hclear _ _, hcertain.doubt _ _⟩⟩

theorem certain_runs_agree_test :
    let s' := testGateway.run testCaches testRTUMaster testCodes (testTraffic fun _ => .applied)
    DevicesAgree UInt16 testCaches id testGateway s' (fun _ _ => True) ∧
    s'.devices.map (·.element) = [.register 1, .register 2, .register 3, .register 4, .register 1] :=
  ⟨(certain_runs_agree testRTUMaster_stores testBridge_deployed ⟨by decide, by decide +kernel, by decide +kernel⟩
      ⟨by decide, by decide +kernel, by decide +kernel⟩ rfl (by decide +kernel) (by decide +kernel) (by decide +kernel)).2,
    by decide +kernel⟩

end

end ModbusRTUBridge
