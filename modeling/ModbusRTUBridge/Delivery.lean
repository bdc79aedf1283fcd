import ModbusRTUBridge.Deposits
import ModbusRTUBridge.Freshness
import ModbusRTUBridge.Gateway
import ModbusRTUBridge.Notices
/-!
# Every write is delivered as it was admitted

What the devices of a gateway stored is made of the writes that were answered, in admission order,
each as often as its frame got through, and of the one that is out (`Delivers`). The caller may
have a request executed again and again; nothing else ever reaches the devices.
-/

namespace ModbusRTUBridge

open StoreForwardBridge

variable {p : ForwardPlanner} {b b' : StoreForwardBridge} {g : Log} {c : Call} {r : Res}

/-- The work in front, as it was admitted. -/
def Log.front (g : Log) : Option Instance := g.queued.head?.map Instance.origin

/-- Unless something is released, who is in front stays there. -/
theorem Log.front_observe {i : Instance} {is : List Instance} (hg : g.queued = i :: is) (hne : r ≠ .reset true)
    (hrel : frontRelease r = none) : (g.observe c r).front = some i.origin := by
  rw [Log.observe_eq hne, hrel, Log.release_none]
  simp [Log.front, Log.note, Log.enqueue, hg, Instance.origin]

/-! ## The outstanding write, step by step -/

/-- What a call does to the write that is out. -/
inductive WriteStep (p : ForwardPlanner) (b : StoreForwardBridge) (g : Log) (c : Call) (r : Res)
    (b' : StoreForwardBridge) : Prop
  | quiet (hx : writeAnswer c r = none) (ho : b'.outstanding = b.outstanding)
      (hg : b.outstanding ≠ none → (g.observe c r).front = g.front)
  | issued (a : StoreForwardAction) (i : Instance) (hx : writeAnswer c r = none) (ho : b.outstanding = none)
      (ho' : b'.outstanding = some a) (hg : (g.observe c r).front = some i) (hi : Conveys p i a)
  | answered (a : StoreForwardAction) (x : Answer) (session : SessionStateView) (hx : writeAnswer c r = some x)
      (hop : c.op = .complete a x.outcome session) (hw : x.write = a.write) (ho : b.outstanding = some a)
      (ho' : b'.outstanding = none)

theorem Tracks.front_kept (h : Tracks p b g) (hne : r ≠ .reset true) (hrel : frontRelease r = none)
    (ho : b.outstanding ≠ none) : (g.observe c r).front = g.front := by
  obtain ⟨s, rest, hq⟩ := List.exists_cons_of_ne_nil (h.coherent.filed.owner (Option.isSome_iff_ne_none.2 ho))
  obtain ⟨i, is, hg, _⟩ := h.front hq
  rw [Log.front_observe hg hne hrel, Log.front, hg]
  rfl

theorem Tracks.writeStep (h : Tracks p b g) (hs : Step b c r b')
    (hcells : ∀ i ∈ g.queued, i.work.SameCells c.memory i.memory) : WriteStep p b g c r b' := by
  have hidle : b.inFlight = false → b.outstanding ≠ none → (g.observe c r).front = g.front := fun hf ho =>
    absurd (outstanding_idle hf) ho
  cases hs with
  | refused hr hq => exact .quiet (Log.writeAnswer_refused hr) rfl fun _ => by rw [Log.observe_refused hr hq]
  | admitted => exact .quiet rfl rfl (h.front_kept nofun rfl)
  | skipped hf => exact .quiet rfl ((outstanding_idle hf).trans (outstanding_idle hf).symm) (hidle hf)
  | @pollAdmitted mem a session polls n i hf hp =>
    have hk : a.kind = .poll := by rw [hp.shape]
    exact .quiet rfl ((outstanding_afterPoll hk).trans (outstanding_idle hf).symm) (hidle hf)
  | @writeAdmitted mem a session polls n s rest hf hw hq =>
    have hk : a.kind = .forwardWrite := by rw [hw.shape]
    have hdown : a.downstream = downstreamRequestFor a.write a.downstream.consistencyContext := by
      conv => lhs; rw [hw.shape]
    obtain ⟨i, is, hg, hprogress, _⟩ := h.front hq
    have hr := h.coherent.unfinished hf (s := s) (by rw [hq]; exact List.mem_cons_self)
    have hseq : a.sequence ≠ 0 := hw.sequence ▸ nextNonZeroSequence32_ne_zero _
    have hcells := hcells i (by rw [hg]; exact List.mem_cons_self)
    have hok := h.slot_ok hq
    have hn := hw.next
    rw [h.planner] at hn
    refine .issued a i.origin rfl (outstanding_idle hf) (outstanding_afterWrite s hk) (Log.front_observe hg nofun rfl) ?_
    have hp := h.planner ▸ h.coherent.routes
    rcases hok.plannable with ⟨ht, _⟩ | ⟨ht, _⟩
    · exact .of_next Bool hp hprogress.sent.sameWork hok hr ht hcells hseq hn hw.takes hdown
    · exact .of_next UInt16 hp hprogress.sent.sameWork hok hr ht hcells hseq hn hw.takes hdown
  | pollCompleted hf ha hk =>
    have ho := outstanding_of_poll ha hk
    exact .quiet rfl ((outstanding_idle rfl).trans ho.symm) fun hne => absurd ho hne
  | @settled mem a outcome session s rest l ho =>
    refine .answered a ⟨a.write, outcome, settledResult a outcome⟩ session ?_ rfl rfl ho (outstanding_idle rfl)
    simp [writeAnswer, settledResult, Taken]
  | @stale mem a outcome session s rest l ho =>
    refine .answered a ⟨a.write, outcome, staleResult a outcome⟩ session ?_ rfl rfl ho (outstanding_idle rfl)
    simp [writeAnswer, staleResult, Taken]
  | dropped _ hf => exact .quiet rfl ((outstanding_idle hf).trans (outstanding_idle hf).symm) (hidle hf)
  | reset _ hf => exact .quiet rfl ((outstanding_idle hf).trans (outstanding_idle hf).symm) (hidle hf)

/-! ## Polls that are out -/

/-- A poll that is out reads. -/
def StoreForwardBridge.PollsRead (b : StoreForwardBridge) : Prop :=
  b.inFlight = true → b.inFlightAction.kind = .poll → isPollOperation b.inFlightAction.downstream.operation = true

theorem StoreForwardBridge.Step.pollsRead (hs : Step b c r b') (h : b.PollsRead) : b'.PollsRead := by
  cases hs with
  | skipped hf => exact fun hf' => absurd (hf.symm.trans hf') (by decide)
  | pollAdmitted hf hp hreq => exact fun _ _ => (hp.dispatched hreq).2.2.1
  | writeAdmitted hf hw =>
    intro _ hk
    have hk' : _ = ScheduledActionKind.forwardWrite := congrArg StoreForwardAction.kind hw.shape
    exact absurd (hk'.symm.trans hk) (by decide)
  | pollCompleted => exact nofun
  | settled => exact nofun
  | stale => exact nofun
  | _ => exact h

/-! ## What a step of the gateway does to a write -/

section
variable {σ Result : Type} {caches : Caches} {written : σ → List ElementWrite} {s s' : Gateway σ} {g : Gateway.Log}
  {master : Memory → ModbusRTUMaster σ Result} {codes : ModbusRTUMasterResultCodes Result} {input : Gateway.Input}
  {out : Gateway.Output Result}

/-- What a step does to the write that is out, and to the devices. -/
inductive GatewayStep (p : ForwardPlanner) (written : σ → List ElementWrite) (s : Gateway σ) (g : Gateway.Log)
    (input : Gateway.Input) (out : Gateway.Output Result) (s' : Gateway σ) : Prop
  | quiet (hx : out.answer = none) (hno : input.carries = false) (hw : written s'.devices = written s.devices)
      (ho : s'.cached.bridge.outstanding = s.cached.bridge.outstanding)
      (hg : s.cached.bridge.outstanding ≠ none → (g.observe input out).cached.log.front = g.cached.log.front)
  | carried (a : StoreForwardAction) (i : Instance) (hx : out.answer = none) (hyes : input.carries = true)
      (hw : written s'.devices = written s.devices ++ i.deposits a.write) (hs : s'.cached = s.cached)
      (ho : s.cached.bridge.outstanding = some a) (hi : g.cached.log.front = some i) (hc : Conveys p i a)
  | issued (a : StoreForwardAction) (i : Instance) (hx : out.answer = none) (hno : input.carries = false)
      (hw : written s'.devices = written s.devices) (ho : s.cached.bridge.outstanding = none)
      (ho' : s'.cached.bridge.outstanding = some a) (hi : (g.observe input out).cached.log.front = some i)
      (hc : Conveys p i a)
  | answered (a : StoreForwardAction) (i : Instance) (x : Answer) (f : CachedBridge.Input) (o : CachedBridge.Output)
      (hinput : input = .facade f) (hout : out = .facade o) (hx : Gateway.answered o = some x)
      (hw : written s'.devices = written s.devices) (ho : s.cached.bridge.outstanding = some a)
      (ho' : s'.cached.bridge.outstanding = none) (hi : g.cached.log.front = some i) (hc : Conveys p i a)
      (hwrite : x.write = a.write) (htruthful : Gateway.Truthful g.sent x.outcome)

/-- The write that is out conveys what the work in front has next. -/
structure Underway (p : ForwardPlanner) (s : Gateway σ) (g : Gateway.Log) : Prop where
  tracks : Tracks p s.cached.bridge g.cached.log
  reads : s.cached.bridge.PollsRead
  sent : g.sent = true → s.cached.bridge.outstanding ≠ none
  conveys : ∀ a, s.cached.bridge.outstanding = some a → ∃ i, g.cached.log.front = some i ∧ Conveys p i a

/-- **Every attempt** that gets through deposits what the write that is out conveys, or nothing. -/
theorem Underway.attempt (hmaster : ∀ mem, (master mem).Stores mem written) (h : Underway p s g) {a : StoreForwardAction}
    {reaches : Bool} (hm : Gateway.Honest caches s g (.attempt a reaches)) :
    GatewayStep p written s g (.attempt a reaches) (Gateway.exec caches master codes s (.attempt a reaches)).1
      (Gateway.exec caches master codes s (.attempt a reaches)).2 := by
  obtain ⟨hf, ha, hcells⟩ := hm
  cases reaches with
  | false => exact .quiet rfl rfl rfl rfl fun _ => rfl
  | true =>
    simp only [Gateway.exec]
    rcases h.tracks.coherent.kinds hf with hk | hk
    · rw [ha] at hk
      have hout : s.cached.bridge.outstanding = some a := outstanding_eq_some.2 ⟨hf, ha, hk⟩
      obtain ⟨i, hi, hconveys⟩ := h.conveys a hout
      have hkept : i.work.SameCells s.cached.memory i.memory := by
        obtain ⟨j, hj, rfl⟩ := Option.map_eq_some_iff.1 hi
        exact hcells j (List.mem_of_mem_head? hj)
      exact .carried a i rfl (by simp [Gateway.Input.carries, hk])
        (hconveys.stores ((hmaster s.cached.memory).adapter codes) hkept s.devices) rfl hout hi hconveys
    · have hpoll := h.reads hf hk
      rw [ha] at hk hpoll
      have hno : (ScheduledActionKind.poll == .forwardWrite) = false := by decide
      exact .quiet rfl (by simp [Gateway.Input.carries, hk, hno]) ((hmaster s.cached.memory).poll codes hpoll s.devices) rfl
        fun _ => rfl

/-- **Every call** issues a write, answers it, or leaves it as it is. -/
theorem Underway.call (h : Underway p s g) {op : Op} (hm : Gateway.Honest caches s g (.facade (.call op))) :
    GatewayStep p written s g (.facade (.call op)) (Gateway.exec caches master codes s (.facade (.call op))).1
      (Gateway.exec caches master codes s (.facade (.call op))).2 := by
  have hwrite := h.tracks.writeStep (exec_step h.tracks.coherent ⟨s.cached.memory, op⟩) hm.1.1
  simp only [Gateway.exec, CachedBridge.exec]
  generalize (s.cached.bridge.exec ⟨s.cached.memory, op⟩).1 = r at *
  generalize (s.cached.bridge.exec ⟨s.cached.memory, op⟩).2 = b' at *
  cases hwrite with
  | quiet hx ho hg =>
    refine .quiet hx rfl rfl ho fun hne => ?_
    rw [Gateway.Log.observe_cached]
    exact hg hne
  | issued a i hx ho ho' hg hi =>
    refine .issued a i hx rfl rfl ho ho' ?_ hi
    rw [Gateway.Log.observe_cached]
    exact hg
  | answered a x session hx hop hw ho ho' =>
    obtain ⟨i, hi, hconveys⟩ := h.conveys a ho
    refine .answered a i x _ _ rfl rfl hx rfl ho ho' hi hconveys hw ?_
    have htruth := hm.2
    obtain rfl : op = .complete a x.outcome session := hop
    exact htruth _ rfl ho

theorem Underway.gatewayStep (hmaster : ∀ mem, (master mem).Stores mem written) (h : Underway p s g)
    (codes : ModbusRTUMasterResultCodes Result) (hm : Gateway.Honest caches s g input) :
    GatewayStep p written s g input (Gateway.exec caches master codes s input).1
      (Gateway.exec caches master codes s input).2 := by
  cases input with
  | attempt a reaches => exact h.attempt hmaster hm
  | facade input =>
    cases input with
    | call op => exact h.call hm
    | _ => exact .quiet rfl rfl rfl rfl fun _ => rfl

/-- **Every step** keeps what is out in line with the work in front. -/
theorem Underway.step (hmaster : ∀ mem, (master mem).Stores mem written) (h : Underway p s g)
    (codes : ModbusRTUMasterResultCodes Result) (hm : Gateway.Honest caches s g input) :
    Underway p (Gateway.exec caches master codes s input).2
      (g.observe input (Gateway.exec caches master codes s input).1) := by
  have hstep := h.gatewayStep hmaster codes hm
  have htracks : Tracks p (Gateway.exec caches master codes s input).2.cached.bridge
      (g.observe input (Gateway.exec caches master codes s input).1).cached.log := by
    cases input with
    | attempt a reaches => cases reaches <;> exact h.tracks
    | facade input =>
      simp only [Gateway.exec, Gateway.Log.observe_cached]
      exact CachedBridge.exec_tracks h.tracks caches input
  have hreads : (Gateway.exec caches master codes s input).2.cached.bridge.PollsRead := by
    cases input with
    | attempt a reaches => cases reaches <;> exact h.reads
    | facade input =>
      cases input with
      | call op => exact (exec_step h.tracks.coherent ⟨s.cached.memory, op⟩).pollsRead h.reads
      | _ => exact h.reads
  generalize Gateway.exec caches master codes s input = next at *
  obtain ⟨out, s'⟩ := next
  refine ⟨htracks, hreads, fun hs => ?_, fun a ha => ?_⟩
  · cases hstep with
    | quiet hx hno _ ho _ =>
      rw [ho]
      exact h.sent (by rwa [(g.observe_silent input hx).1, hno, Bool.or_false] at hs)
    | carried a i hx _ _ hs' ho =>
      rw [hs', ho]
      exact Option.some_ne_none a
    | issued a i hx hno _ ho ho' => rw [ho']; exact Option.some_ne_none a
    | answered a i x f o hinput hout hx =>
      subst hinput hout
      rw [Gateway.Log.observe_answered hx] at hs
      cases hs
  · cases hstep with
    | quiet hx hno _ ho hg =>
      rw [ho] at ha
      rw [hg (by rw [ha]; exact Option.some_ne_none a)]
      exact h.conveys a ha
    | carried a' i hx hyes _ hs' ho hi hc =>
      rw [hs'] at ha
      rw [Gateway.Log.observe_carried _ hyes]
      exact h.conveys a ha
    | issued a' i _ _ _ _ ho' hi hc =>
      obtain rfl : a = a' := Option.some.inj (ha.symm.trans ho')
      exact ⟨i, hi, hc⟩
    | answered a' i x _ _ _ _ _ _ _ ho' => rw [ho'] at ha; cases ha

theorem Underway.init (hb : s.cached.bridge.Deployed) : Underway s.cached.bridge.forwardPlanner s {} := by
  have hidle := hb.revision_one.2
  refine ⟨log_tracks hb [], fun hf => absurd (hidle.symm.trans hf) nofun, nofun, fun a ha => ?_⟩
  rw [outstanding_idle hidle] at ha
  cases ha

end

/-! ## What the devices stored -/

/-- The elements of the whole range, in address order. -/
def Instance.contents (i : Instance) : List Element :=
  (List.range' i.work.start.toNat i.work.count.toNat).map i.element

/-- A write that was answered, and how often its frame got through by then. -/
structure Execution where
  work : Instance
  answer : Answer
  tries : Nat

def Execution.elements (x : Execution) : List ElementWrite :=
  (List.replicate x.tries (x.work.deposits x.answer.write)).flatten

structure Deliveries where
  gateway : Gateway.Log := {}
  /-- How often the frame of the write that is out got through. -/
  tries : Nat := 0
  executed : List Execution := []

namespace Deliveries

def observe {Result : Type} (d : Deliveries) (input : Gateway.Input) (out : Gateway.Output Result) : Deliveries where
  gateway := d.gateway.observe input out
  tries := if out.answer.isSome then 0 else d.tries + input.carries.toNat
  executed := d.executed ++ out.answer.toList.flatMap fun x => d.gateway.cached.log.front.toList.map (⟨·, x, d.tries⟩)

/-- What the write that is out has deposited by now. -/
def underway (d : Deliveries) (b : StoreForwardBridge) : List ElementWrite :=
  b.outstanding.toList.flatMap fun a => d.gateway.cached.log.front.toList.flatMap fun i =>
    (List.replicate d.tries (i.deposits a.write)).flatten

end Deliveries

/-- Fragments that cover a range go through its addresses once each, in order. -/
theorem Covers.addresses {start count : UInt16} {ws : List PlannedWriteRequest} (h : Covers start count ws) :
    (ws.flatMap fun w => List.range' w.upstreamStart.toNat w.quantity.toNat) = List.range' start.toNat count.toNat := by
  have hprefix : ∀ k ≤ ws.length, ((ws.take k).flatMap fun w => List.range' w.upstreamStart.toNat w.quantity.toNat) =
      List.range' start.toNat (elementCount (ws.take k)) := by
    intro k hk
    induction k with
    | zero => rfl
    | succ k ih =>
      have hget : ws[k]? = some ws[k] := List.getElem?_eq_getElem (by omega)
      obtain ⟨_, _, hoffset, hstart⟩ := h.consecutive k _ hget
      rw [List.take_add_one, hget, Option.toList_some, List.flatMap_append, ih (by omega), elementCount_snoc,
        ← List.range'_append_1, ← hoffset, ← hstart, List.flatMap_singleton]
  have hall := hprefix ws.length (Nat.le_refl _)
  rwa [List.take_length, h.whole] at hall

/-- So they deposit the contents of a work they cover. -/
theorem Covers.contents {i : Instance} {ws : List PlannedWriteRequest} (h : Covers i.work.start i.work.count ws) :
    (ws.flatMap i.deposits).map ElementWrite.element = i.contents := by
  rw [Instance.contents, ← h.addresses, List.map_flatMap, List.map_flatMap]
  refine List.flatMap_congr fun w _ => ?_
  rw [Instance.deposits, List.map_map, List.range'_eq_map_range, List.map_map]
  rfl

section
variable {σ Result : Type} {caches : Caches} {written : σ → List ElementWrite} {s s' : Gateway σ} {d : Deliveries}
  {master : Memory → ModbusRTUMaster σ Result} {codes : ModbusRTUMasterResultCodes Result} {input : Gateway.Input}
  {inputs : List Gateway.Input}

/-- The devices stored what was executed, and the log of executions is that of the answers. -/
structure StoresExecuted (p : ForwardPlanner) (written : σ → List ElementWrite) (s : Gateway σ) (d : Deliveries) :
    Prop where
  underway : Underway p s d.gateway
  idle : s.cached.bridge.outstanding = none → d.tries = 0
  sent : d.gateway.sent = decide (0 < d.tries)
  stored : written s.devices = d.executed.flatMap Execution.elements ++ d.underway s.cached.bridge
  answered : d.executed.map (fun x => (x.work, x.answer)) =
    d.gateway.cached.log.instances.flatMap fun i => i.answers.map (i.origin, ·)
  truthful : ∀ x ∈ d.executed, Gateway.Truthful (decide (0 < x.tries)) x.answer.outcome

theorem Deliveries.underway_some {b : StoreForwardBridge} {a : StoreForwardAction} {i : Instance}
    (ho : b.outstanding = some a) (hi : d.gateway.cached.log.front = some i) :
    d.underway b = (List.replicate d.tries (i.deposits a.write)).flatten := by
  simp [Deliveries.underway, ho, hi]

theorem Deliveries.underway_untried {b : StoreForwardBridge} (h : d.tries = 0) : d.underway b = [] := by
  simp [Deliveries.underway, h]

theorem Deliveries.observe_silent (d : Deliveries) (input : Gateway.Input) {out : Gateway.Output Result}
    (hx : out.answer = none) :
    (d.observe input out).tries = d.tries + input.carries.toNat ∧ (d.observe input out).executed = d.executed := by
  simp [Deliveries.observe, hx]

theorem Deliveries.observe_answered (d : Deliveries) (input : Gateway.Input) {out : Gateway.Output Result} {x : Answer}
    {i : Instance} (hx : out.answer = some x) (hi : d.gateway.cached.log.front = some i) :
    (d.observe input out).tries = 0 ∧ (d.observe input out).executed = d.executed ++ [⟨i, x, d.tries⟩] := by
  simp [Deliveries.observe, hx, hi]

/-- The answers of the works grow by what a step answers, of the work in front. -/
theorem Underway.answers {g : Gateway.Log} (h : Underway p s g) (caches : Caches)
    (master : Memory → ModbusRTUMaster σ Result) (codes : ModbusRTUMasterResultCodes Result) (input : Gateway.Input) :
    (g.observe input (Gateway.exec caches master codes s input).1).cached.log.instances.flatMap
        (fun i => i.answers.map (i.origin, ·)) =
      g.cached.log.instances.flatMap (fun i => i.answers.map (i.origin, ·)) ++
        (Gateway.exec caches master codes s input).1.answer.toList.flatMap fun x =>
          g.cached.log.front.toList.map (·, x) := by
  cases input with
  | attempt a reaches => cases reaches <;> exact (List.append_nil _).symm
  | facade f =>
    simp only [Gateway.exec, Gateway.Log.observe_cached]
    cases f with
    | call op =>
      refine (h.tracks.collects_front ⟨s.cached.memory, op⟩ (s.cached.bridge.exec ⟨s.cached.memory, op⟩).1
        (fun i _ x => x.toList.map (i.origin, ·)) (fun i w x => ?_) fun i _ he => by rw [he]; rfl).trans ?_
      · rw [Instance.noted, List.map_append]
        rfl
      · congr 1
        show _ = (writeAnswer _ _).toList.flatMap _
        rw [Log.front]
        cases g.cached.log.queued.head? <;> cases writeAnswer _ _ <;> rfl
    | _ => exact (List.append_nil _).symm

/-- **Every step** stores what it executes. -/
theorem StoresExecuted.step (hmaster : ∀ mem, (master mem).Stores mem written) (h : StoresExecuted p written s d)
    (codes : ModbusRTUMasterResultCodes Result) (hm : Gateway.Honest caches s d.gateway input) :
    StoresExecuted p written (Gateway.exec caches master codes s input).2
      (d.observe input (Gateway.exec caches master codes s input).1) := by
  have hstep := h.underway.gatewayStep hmaster codes hm
  have hunderway := h.underway.step hmaster codes hm
  have hanswers := h.underway.answers caches master codes input
  have hanswered :
      (d.observe input (Gateway.exec caches master codes s input).1).executed.map (fun x => (x.work, x.answer)) =
      (d.observe input (Gateway.exec caches master codes s input).1).gateway.cached.log.instances.flatMap
        fun i => i.answers.map (i.origin, ·) := by
    refine (List.map_append ..).trans ?_
    rw [h.answered]
    refine Eq.trans ?_ hanswers.symm
    congr 1
    rw [List.map_flatMap]
    refine List.flatMap_congr fun x _ => ?_
    rw [List.map_map]
    rfl
  generalize Gateway.exec caches master codes s input = next at *
  obtain ⟨out, s'⟩ := next
  cases hstep with
  | quiet hx hno hw ho hg =>
    obtain ⟨htries, hexecuted⟩ := d.observe_silent input hx
    obtain ⟨hsent, _⟩ := d.gateway.observe_silent input hx
    simp only [hno, Bool.toNat_false, Nat.add_zero] at htries
    rw [hno, Bool.or_false] at hsent
    refine ⟨hunderway, fun hidle => ?_, ?_, ?_, hanswered, ?_⟩
    · rw [htries]
      exact h.idle (ho ▸ hidle)
    · rw [htries]
      exact hsent.trans h.sent
    · have hunder : (d.observe input out).underway s'.cached.bridge = d.underway s.cached.bridge := by
        unfold Deliveries.underway
        rw [ho, htries]
        cases hout : s.cached.bridge.outstanding with
        | none => rfl
        | some a =>
          have hfront : (d.observe input out).gateway.cached.log.front = d.gateway.cached.log.front :=
            hg (by rw [hout]; exact Option.some_ne_none a)
          rw [hfront]
      rw [hunder, hexecuted, hw, h.stored]
    · rw [hexecuted]
      exact h.truthful
  | carried a i hx hyes hw hs ho hi hc =>
    obtain ⟨htries, hexecuted⟩ := d.observe_silent input hx
    simp only [hyes, Bool.toNat_true] at htries
    have hgateway : (d.observe input out).gateway = { d.gateway with sent := true } := Gateway.Log.observe_carried out hyes
    have hfront : (d.observe input out).gateway.cached.log.front = some i := by rw [hgateway]; exact hi
    refine ⟨hunderway, fun hidle => ?_, ?_, ?_, hanswered, ?_⟩
    · rw [hs, ho] at hidle
      cases hidle
    · rw [hgateway, htries]
      simp
    · rw [Deliveries.underway_some (by rw [hs]; exact ho) hfront, htries, hexecuted, hw, h.stored,
        Deliveries.underway_some ho hi, List.append_assoc, List.replicate_succ', List.flatten_append]
      simp
    · rw [hexecuted]
      exact h.truthful
  | issued a i hx hno hw ho ho' hi hc =>
    obtain ⟨htries, hexecuted⟩ := d.observe_silent input hx
    obtain ⟨hsent, _⟩ := d.gateway.observe_silent input hx
    have huntried := h.idle ho
    simp only [hno, Bool.toNat_false, Nat.add_zero] at htries
    rw [hno, Bool.or_false] at hsent
    refine ⟨hunderway, fun _ => htries.trans huntried, ?_, ?_, hanswered, ?_⟩
    · rw [htries]
      exact hsent.trans h.sent
    · rw [Deliveries.underway_untried (htries.trans huntried), hexecuted, hw, h.stored,
        Deliveries.underway_untried huntried]
    · rw [hexecuted]
      exact h.truthful
  | answered a i x f o hinput hout hx hw ho ho' hi hc hwrite htruthful =>
    subst hinput hout
    obtain ⟨htries, hexecuted⟩ := d.observe_answered (.facade f)
      (show (Gateway.Output.facade o : Gateway.Output Result).answer = some x from hx) hi
    refine ⟨hunderway, fun _ => htries, ?_, ?_, hanswered, fun y hy => ?_⟩
    · rw [htries]
      show ((d.gateway.observe (.facade f) (.facade o : Gateway.Output Result))).sent = _
      rw [Gateway.Log.observe_answered hx]
      rfl
    · rw [Deliveries.underway_untried htries, hexecuted, hw, h.stored, Deliveries.underway_some ho hi, ← hwrite]
      simp [Execution.elements]
    · rw [hexecuted] at hy
      rcases List.mem_append.1 hy with hy | hy
      · exact h.truthful y hy
      · rw [List.mem_singleton.1 hy]
        exact h.sent ▸ htruthful

/-! ## Every run -/

/-- The log of the executions of a run. -/
def Gateway.deliveries (caches : Caches) (master : Memory → ModbusRTUMaster σ Result)
    (codes : ModbusRTUMasterResultCodes Result) (s : Gateway σ) (inputs : List Gateway.Input) : Deliveries :=
  Machine.observe Deliveries.observe {} (Machine.trace (Gateway.exec caches master codes) s inputs)

theorem run_storesExecuted (hmaster : ∀ mem, (master mem).Stores mem written) (hb : s.cached.bridge.Deployed)
    (hempty : written s.devices = []) (hm : s.Keeps caches master codes inputs) :
    StoresExecuted s.cached.bridge.forwardPlanner written (s.run caches master codes inputs)
      (s.deliveries caches master codes inputs) := by
  have hinit : StoresExecuted s.cached.bridge.forwardPlanner written s {} := by
    refine ⟨.init hb, fun _ => rfl, rfl, ?_, rfl, fun x hx => absurd hx List.not_mem_nil⟩
    rw [hempty, Deliveries.underway_untried rfl]
    rfl
  exact Machine.simulates_final_of (Gateway.exec caches master codes) (fun _ _ _ hok h => h.step hmaster codes hok) hinit
    (Machine.Meets.enrich (Gateway.exec caches master codes) (ρ := Deliveries.gateway) (fun _ _ _ => rfl) hm)

/-- What was delivered when the facade stands as `b`, read against the log of its works. -/
structure Delivered (written : List ElementWrite) (b : StoreForwardBridge) (g : Log) (d : Deliveries) : Prop where
  /-- The devices stored the writes answered, each as often as its frame got through, and the one that is out. -/
  stored : written = d.executed.flatMap Execution.elements ++ d.underway b
  /-- Those are the answers of the works, in admission order. -/
  inOrder : d.executed.map (fun x => (x.work, x.answer)) = g.instances.flatMap fun i => i.answers.map (i.origin, ·)
  /-- Applied was carried out at least once, and what is proved not to be never was. -/
  applied : ∀ x ∈ d.executed, x.answer.outcome = .applied → 0 < x.tries
  unapplied : ∀ x ∈ d.executed, Gateway.provesUnapplied x.answer.outcome = true → x.elements = []
  /-- A work applied as a whole deposits all its elements, in address order. -/
  whole : ∀ i ∈ g.instances, i.AllApplied →
    (i.answers.flatMap fun x => i.deposits x.write).map ElementWrite.element = i.contents

/-- **Every write is delivered as it was admitted.** In every run of a gateway over devices that have
stored nothing yet, whose caller keeps its side (`Gateway.Keeps`: it executes only what the facade
retains, reports truthfully, leaves queued snapshots as they were at admission and stores nothing
into the images), the devices stored the fragments of the works in admission order, each as often as
its frame got through, and nothing else. -/
theorem delivered_in_order (hmaster : ∀ mem, (master mem).Stores mem written) (hb : s.cached.bridge.Deployed)
    (hempty : written s.devices = []) (hm : s.Keeps caches master codes inputs) :
    Delivered (written (s.run caches master codes inputs).devices) (s.run caches master codes inputs).cached.bridge
      (s.log caches master codes inputs).cached.log (s.deliveries caches master codes inputs) := by
  have h := run_storesExecuted hmaster hb hempty hm
  have hlog : (s.deliveries caches master codes inputs).gateway = s.log caches master codes inputs :=
    Machine.observe_map (ρ := Deliveries.gateway) (fun _ _ _ => rfl) _ _
  refine ⟨h.stored, ?_, fun x hx ho => ?_, fun x hx ho => ?_, fun i _ hall => ?_⟩
  · rw [← hlog]
    exact h.answered
  · exact of_decide_eq_true ((h.truthful x hx).1 ho)
  · have huntried : x.tries = 0 := by simpa using (h.truthful x hx).2 ho
    simp [Execution.elements, huntried]
  · rw [← hall.covers.contents, List.flatMap_map]

/-- Every frame of the test gets lost once and through twice; the last write ends in uncertainty. -/
theorem delivered_in_order_test :
    let inputs := (testTraffic fun k => if k = 2 then .sendUncertain else .applied).flatMap fun
      | .attempt a _ => [.attempt a false, .attempt a true, .attempt a true]
      | input => [input]
    let s' := testGateway.run testCaches testRTUMaster testCodes inputs
    let d := testGateway.deliveries testCaches testRTUMaster testCodes inputs
    Delivered s'.devices s'.cached.bridge (testGateway.log testCaches testRTUMaster testCodes inputs).cached.log d ∧
    d.executed.map (·.tries) = [2, 2, 2] ∧
    s'.devices.map (·.element) = [1, 2, 1, 2, 3, 4, 3, 4, 1, 1].map .register :=
  ⟨delivered_in_order testRTUMaster_stores testBridge_deployed rfl (by decide +kernel), by decide +kernel,
    by decide +kernel⟩

end

end ModbusRTUBridge
