import ModbusRTUBridge.DesiredImage
/-!
# What an upstream read returns

A caller who answers an upstream read takes a span of the visible image with `copyTo`. What it then
has in its buffer is what the devices hold.
-/

namespace ModbusRTUBridge

open StoreForwardBridge (testBridge testBridge_deployed testMemory)

/-- None of the `count` cells from `p` on is an element of the image. -/
def MutableImageView.Clear {Value : Type} (v : MutableImageView Value) (p : Ptr) (count : UInt16) : Prop :=
  ∀ k < v.count.toNat, ¬ (v.values.add k).within p count.toNat

instance {Value : Type} (v : MutableImageView Value) (p : Ptr) (count : UInt16) : Decidable (v.Clear p count) :=
  inferInstanceAs (Decidable (∀ k < v.count.toNat, ¬ (v.values.add k).within p count.toNat))

/-- **`copyTo`** hands out its whole span and leaves the image alone, or fails. -/
theorem MutableImageView.copyTo_spec {Value : Type} [MemoryCell Value] (mem : Memory) (v : MutableImageView Value)
    (start : UInt16) {destination : Ptr} {count : UInt16} (hclear : v.Clear destination count) :
    (v.copyTo mem start destination count).1 = (destination != .null && v.contains start count) ∧
    ((v.copyTo mem start destination count).1 = false → (v.copyTo mem start destination count).2 = mem) ∧
    ((v.copyTo mem start destination count).1 = true → ∀ j < count.toNat,
      MemoryCell.load (v.copyTo mem start destination count).2 (destination.add j) = v.cell mem (start.toNat + j)) ∧
    v.Same mem (v.copyTo mem start destination count).2 := by
  rcases v.copyTo_cases mem start destination count with ⟨heq, hbad⟩ | ⟨hne, hcontains, htrue, hcopied⟩
  · rw [heq]
    refine ⟨?_, fun _ => rfl, nofun, .refl v mem⟩
    rcases hbad with hbad | hbad <;> simp [hbad]
  · rw [htrue]
    refine ⟨by simp [hne, hcontains], nofun, fun _ j hj => ?_, fun k hk => hcopied.outside (hclear k hk)⟩
    rw [hcopied.inside hj, Ptr.add_add]
    rfl

/-- The routes of the test put address 100 and 101 at endpoint 10, 102 and 103 at endpoint 11. -/
theorem testRoutes_place {address route : Nat}
    (h : testBridge.forwardPlanner.routes.Owns .holdingRegisters address route) :
    100 ≤ address ∧ testBridge.forwardPlanner.routes.place .holdingRegisters route address =
      if address < 102 then (10, address - 100) else (11, 20 + (address - 102)) := by
  have hroute : route < 2 := h.route
  have hlo := h.start_le
  have hhi := h.lt_stop
  obtain rfl | rfl : route = 0 ∨ route = 1 := by omega
  · have hlo : 100 ≤ address := hlo
    have hhi : address < 102 := hhi
    rw [if_pos hhi, ← Nat.zero_add (address - 100)]
    exact ⟨hlo, rfl⟩
  · have hlo : 102 ≤ address := hlo
    rw [if_neg (by omega)]
    exact ⟨by omega, rfl⟩

theorem testRoutes_alone (address : Nat) : testBridge.forwardPlanner.routes.Alone .holdingRegisters address := by
  intro route address' route' hown hown' hplace
  obtain ⟨hlo, hplaced⟩ := testRoutes_place hown
  obtain ⟨hlo', hplaced'⟩ := testRoutes_place hown'
  rw [hplaced, hplaced'] at hplace
  split at hplace <;> split at hplace <;> simp at hplace <;> omega

theorem testRoutes_owned : ∀ j < 4, ∃ route, testBridge.forwardPlanner.routes.Owns .holdingRegisters (100 + j) route := by
  intro j hj
  refine ⟨j / 2, ?_⟩
  obtain rfl | rfl | rfl | rfl : j = 0 ∨ j = 1 ∨ j = 2 ∨ j = 3 := by omega
  all_goals exact ⟨by decide, by decide, by decide, by decide⟩

section
variable {σ Result : Type} {caches : Caches} {written : σ → List ElementWrite} {s : Gateway σ}
  {master : Memory → ModbusRTUMaster σ Result} {codes : ModbusRTUMasterResultCodes Result} {inputs : List Gateway.Input}

/-- Every address of the span is routed to a place of its own and is not astray. -/
def RouteTableView.Settles (v : RouteTableView) (t : RegisterTable) (astray : Nat → Bool) (start count : UInt16) : Prop :=
  ∀ j < count.toNat, (∃ r, v.Owns t (start.toNat + j) r) ∧ v.Alone t (start.toNat + j) ∧ astray (start.toNat + j) = false

/-- Reading a span of the visible image succeeds, changes no element of it, and returns what the
devices hold. -/
def ReadsDevices (Value : Type) [DeviceElement Value] (caches : Caches) (written : σ → List ElementWrite)
    (s s' : Gateway σ) (astray : Nat → Bool) : Prop :=
  ∀ (start count : UInt16) (destination : Ptr), destination ≠ .null →
    (caches.of Value).visible.contains start count = true → (caches.of Value).visible.Clear destination count →
    s.cached.bridge.forwardPlanner.routes.Settles (WorkTraits.table Value) astray start count →
    let r := (caches.of Value).visible.copyTo s'.cached.memory start destination count
    r.1 = true ∧ (caches.of Value).visible.Same s'.cached.memory r.2 ∧
    ∀ j < count.toNat, ∀ route, s.cached.bridge.forwardPlanner.routes.Owns (WorkTraits.table Value) (start.toNat + j) route →
      MemoryCell.load r.2 (destination.add j) =
        held Value (written s'.devices)
          (s.cached.bridge.forwardPlanner.routes.place (WorkTraits.table Value) route (start.toNat + j))
          ((caches.of Value).applied.cell s.cached.memory (start.toNat + j))

theorem UpstreamAgrees.reads {Value : Type} [DeviceElement Value] {s' : Gateway σ} {astray : Nat → Bool}
    (h : UpstreamAgrees Value caches written s s' astray) : ReadsDevices Value caches written s s' astray := by
  intro start count destination hne hcontains hclear hsettles
  obtain ⟨hstatus, _, helements, hsame⟩ :=
    (caches.of Value).visible.copyTo_spec s'.cached.memory start hclear
  have htrue : ((caches.of Value).visible.copyTo s'.cached.memory start destination count).1 = true := by
    rw [hstatus, hcontains]
    simpa using hne
  refine ⟨htrue, hsame, fun j hj route hown => ?_⟩
  obtain ⟨_, halone, hastray⟩ := hsettles j hj
  obtain ⟨_, _, hle⟩ := MutableImageView.contains_iff.1 hcontains
  rw [helements htrue j hj, h (start.toNat + j) route hown halone (by omega) hastray]

/-- **An upstream read returns what the devices hold.** The devices start in step, the caches reach over
every routed address and the caller keeps its side. When the queue has drained in a run in which every
write answered was applied or is known not to have been carried out, `copyTo` hands out any span of
routed addresses that have places of their own and are not astray as the devices hold it. -/
theorem upstream_reads_served (hmaster : ∀ mem, (master mem).Stores mem written) (hb : s.cached.bridge.Deployed)
    (hcoils : caches.coils.Fits s.cached.bridge.forwardPlanner.routes .coils)
    (hholding : caches.holding.Fits s.cached.bridge.forwardPlanner.routes .holdingRegisters)
    (hempty : written s.devices = []) (hm : s.Keeps caches master codes inputs)
    (hcertain : s.Certain caches master codes inputs)
    (hdrained : (s.run caches master codes inputs).cached.bridge.queue = []) :
    let s' := s.run caches master codes inputs
    let astray (Value : Type) [CachedElement Value] [DecidableEq Value] :=
      (s.cached.desiredLog Value caches (inputs.filterMap Gateway.Input.facadeInput)).astray
    ReadsDevices Bool caches written s s' (astray Bool) ∧ ReadsDevices UInt16 caches written s s' (astray UInt16) :=
  ⟨(run_upstreamAgrees hmaster hb hcoils hempty hm hcertain hdrained).reads,
    (run_upstreamAgrees hmaster hb hholding hempty hm hcertain hdrained).reads⟩

/-- Both works of the test are captured and applied, then the four registers they wrote are read. -/
theorem upstream_reads_served_test :
    let inputs := [.facade (.holding (.captureDesired 100 ⟨1, 0⟩ 4)), .facade (.holding (.captureDesired 100 ⟨2, 0⟩ 1))] ++
      testTraffic fun _ => .applied
    let s' := testGateway.run testCaches testRTUMaster testCodes inputs
    let r := testCaches.holding.visible.copyTo s'.cached.memory 100 ⟨77, 0⟩ 4
    r.1 = true ∧ (∀ j < 4, ∀ route, testGateway.cached.bridge.forwardPlanner.routes.Owns .holdingRegisters (100 + j) route →
      r.2.holding ((⟨77, 0⟩ : Ptr).add j) = held UInt16 s'.devices
        (testGateway.cached.bridge.forwardPlanner.routes.place .holdingRegisters route (100 + j))
        (testCaches.holding.applied.cell testMemory (100 + j))) ∧
    (List.range 4).map (fun j => r.2.holding ((⟨77, 0⟩ : Ptr).add j)) = [1, 2, 3, 4] := by
  intro inputs s' r
  have hastray : ∀ j < 4, (testGateway.cached.desiredLog UInt16 testCaches
      (inputs.filterMap Gateway.Input.facadeInput)).astray (100 + j) = false := by decide +kernel
  obtain ⟨_, hreads⟩ := upstream_reads_served testRTUMaster_stores testBridge_deployed
    ⟨by decide, by decide +kernel, by decide +kernel⟩ ⟨by decide, by decide +kernel, by decide +kernel⟩ rfl
    (show testGateway.Keeps testCaches testRTUMaster testCodes inputs by decide +kernel) (by decide +kernel)
    (by decide +kernel)
  obtain ⟨hstatus, _, helements⟩ := hreads 100 4 ⟨77, 0⟩ (by decide) (by decide) (by decide +kernel)
    fun j hj => ⟨testRoutes_owned j hj, testRoutes_alone _, hastray j hj⟩
  exact ⟨hstatus, helements, by decide +kernel⟩

end

end ModbusRTUBridge
