import ModbusRTUBridge.ImageEffect
import ModbusRTUBridge.Pieces
/-!
# The applied image follows the applied fragments

At the end of every run of a facade with caches each element of the applied image is the one
carried for it by the last fragment completed as applied (`Mirrors`).
-/

namespace ModbusRTUBridge

open StoreForwardBridge
open CachedBridge (Input Output)

variable {p : ForwardPlanner} {b b' : StoreForwardBridge} {g : Log} {c : Call} {r : Res} {w : PlannedWriteRequest}

/-! ## Pieces and answers -/

/-- The pieces of an instance, read off its answers. -/
def Instance.pieces (i : Instance) : List Piece :=
  (i.answers.filter fun x => x.Applied).map fun x => (i.origin, x.write)

/-- What a call adds to the pieces, its answer adds to those of the instance in front. -/
theorem Tracks.pieces (h : Tracks p b g) (c : Call) (r : Res) : (g.observe c r).instances.flatMap Instance.pieces =
    g.instances.flatMap Instance.pieces ++ CacheLog.newPiece g c r := by
  have hnew : CacheLog.newPiece g c r = g.queued.head?.toList.flatMap fun i =>
      ((writeAnswer c r).toList.filter fun x => x.Applied).map fun x => (i.origin, x.write) := by
    apply List.flatMap_congr
    intro i _
    unfold appliedWrite
    cases writeAnswer c r with
    | none => rfl
    | some x => by_cases hx : x.Applied <;> simp [hx]
  rw [hnew]
  refine h.collects_front c r (fun i _ x => (x.toList.filter fun x => x.Applied).map fun x => (i.origin, x.write))
    (fun i w x => ?_) fun i _ he => ?_
  · simp [Instance.pieces, Instance.noted, Instance.origin]
  · simp [Instance.pieces, he]

/-- While a work goes on, its pieces are all its answers. -/
theorem InProgress.pieces_eq {i : Instance} {s : StoreForwardWorkSlot} {o : Option StoreForwardAction}
    (h : InProgress p i s o) : i.pieces = i.answers.map fun x => (i.origin, x.write) := by
  have hall : (i.answers.filter fun x => x.Applied) = i.answers :=
    List.filter_eq_self.2 fun x hx => decide_eq_true ⟨(h.applied x hx).status, (h.applied x hx).outcome⟩
  rw [Instance.pieces, hall]

/-- What a call completed as applied is a slice of the instance in front. -/
theorem Tracks.applied_slice (h : Tracks p b g) (hs : Step b c r b') (hw : appliedWrite c r = some w) :
    ∃ i, g.queued.head? = some i ∧ i.Admitted p ∧ Slice i w := by
  have hanswer : writeAnswer c r ≠ none := fun e => by simp [appliedWrite, e] at hw
  cases hs with
  | refused hr hq => exact absurd (Log.writeAnswer_refused hr) hanswer
  | @settled mem a outcome session s rest l ho hknown hcur hq hl hrecords =>
    obtain ⟨i, is, hg, hi, _⟩ := h.front hq
    have hissued := h.coherent.outstanding_front ho hq
    obtain rfl : a.write = w := by
      simp only [appliedWrite, writeAnswer, settledResult, Taken, true_or, and_self, if_true, Option.bind_some] at hw
      split at hw
      · exact Option.some.inj hw
      · cases hw
    exact ⟨i, by rw [hg]; rfl, h.admitted_front hg, .of_issued hi.sent.sameWork hissued.1⟩
  | stale => simp [appliedWrite, writeAnswer, staleResult, Answer.Applied, Taken] at hw
  | _ => exact absurd rfl hanswer

/-! ## Every run -/

section
variable (Value : Type) [CachedElement Value] {caches : Caches} {s : CachedBridge} {l : CacheLog} {mem₀ : Memory}
  {input : Input}

/-- The applied image holds what the pieces carry. -/
structure Mirrors (p : ForwardPlanner) (caches : Caches) (mem₀ : Memory) (s : CachedBridge) (l : CacheLog) : Prop where
  tracks : Tracks p s.bridge l.log
  pieces : l.pieces = l.log.instances.flatMap Instance.pieces
  applied : ∀ k < (caches.of Value).applied.count.toNat, (caches.of Value).applied.cell s.memory k =
    carried Value l.pieces k ((caches.of Value).applied.cell mem₀ k)

variable {Value}

theorem CachedBridge.exec_tracks (h : Tracks p s.bridge l.log) (caches : Caches) (input : Input) :
    Tracks p (exec caches s input).2.bridge (l.observe input (exec caches s input).1).log := by
  cases input with
  | call op => exact h.step (exec_step h.coherent ⟨s.memory, op⟩)
  | _ => exact h

theorem CachedBridge.exec_pieces (h : Tracks p s.bridge l.log) (hp : l.pieces = l.log.instances.flatMap Instance.pieces)
    (caches : Caches) (input : Input) : (l.observe input (exec caches s input).1).pieces =
      (l.observe input (exec caches s input).1).log.instances.flatMap Instance.pieces := by
  cases input with
  | call op =>
    show l.pieces ++ CacheLog.newPiece _ _ _ = _
    rw [hp, ← h.pieces]
    rfl
  | _ => exact hp

/-- A completion of the other type carries nothing for this one. -/
theorem carried_newPiece (g : Log) {c : Call} {r : Res}
    (h : ∀ w, appliedWrite c r = some w → w.table ≠ WorkTraits.table Value)
    (k : Nat) (v : Value) : carried Value (CacheLog.newPiece g c r) k v = v := by
  apply carried_other
  intro x hx hcov
  obtain ⟨i, _, hx⟩ := List.mem_flatMap.1 hx
  obtain ⟨w, hw, rfl⟩ := List.mem_map.1 hx
  exact h w (by simpa using hw) hcov.1

variable [LawfulElement Value]

/-- Marking a slice writes the elements of its work. -/
theorem Slice.marked {i : Instance} (h : Slice i w) (hi : i.Admitted p) (hp : p.RoutesOk) {cache : DesiredAppliedCache Value}
    (hfit : cache.Fits p.routes (WorkTraits.table Value)) (ht : w.table = WorkTraits.table Value) {mem : Memory}
    (hcells : i.work.SameCells mem i.memory) (k : Nat) :
    cache.applied.cell (cache.markApplied mem w.upstreamStart w.payload w.quantity).2 k =
      if w.Covers (WorkTraits.table Value) k then i.origin.value Value k else cache.applied.cell mem k := by
  have hitable : i.work.table = WorkTraits.table Value := h.table.symm.trans ht
  have hwithin := hi.within_image hp (hitable ▸ hfit)
  have hstart := h.start
  have hslice := h.within
  have hpos := h.pos
  have hsnapshot : i.work.snapshot ≠ .null := by simpa [Instance.slot] using hi.ok.snapshot_ne
  have hpayload : w.payload ≠ .null := h.payload ▸ Ptr.add_ne_null hsnapshot _
  have hcontains : cache.applied.contains w.upstreamStart w.quantity = true :=
    MutableImageView.contains_iff.2 ⟨fun e => by simp [e] at hpos, hfit.applied_ne, by omega⟩
  show cache.applied.cell (cache.applied.copyFrom mem w.upstreamStart w.payload w.quantity).2 k = _
  rw [MutableImageView.cell_copyFrom hpayload hcontains]
  by_cases hk : w.upstreamStart.toNat ≤ k ∧ k < w.upstreamStart.toNat + w.quantity.toNat
  · rw [if_pos hk, if_pos ⟨ht, hk⟩]
    exact h.load (LawfulElement.cells i.work mem i.memory hitable hcells) hk.1 hk.2
  · rw [if_neg hk, if_neg fun hcov => hk hcov.2]

/-- **Every step keeps the image up to date.** -/
theorem Mirrors.step (hfit : (caches.of Value).Fits p.routes (WorkTraits.table Value))
    (hm : CachedBridge.Honest caches s l input) (h : Mirrors Value p caches mem₀ s l) :
    Mirrors Value p caches mem₀ (CachedBridge.exec caches s input).2
      (l.observe input (CachedBridge.exec caches s input).1) := by
  refine ⟨CachedBridge.exec_tracks h.tracks caches input, CachedBridge.exec_pieces h.tracks h.pieces caches input, ?_⟩
  intro k hk
  have heffect := exec_effect Value caches h.tracks.coherent input fun mem he => by
    subst he
    exact hm.2
  generalize CachedBridge.exec caches s input = next at heffect ⊢
  obtain ⟨out, s'⟩ := next
  cases heffect with
  | moved op =>
    refine Eq.trans ?_ (h.applied k hk)
    rcases op.perform_copies (caches.of Value) s.memory with heq | ⟨start, source, count, heq⟩
    · simp only [heq]
    · simp only [heq]
      exact MutableImageView.copyFrom_apart hfit.apart start source count k hk
  | @marked op r b w hs hw ht =>
    obtain ⟨i, hi, hadm, hslice⟩ := h.tracks.applied_slice hs hw
    have hnew : CacheLog.newPiece l.log ⟨s.memory, op⟩ r = [(i.origin, w)] := by simp [CacheLog.newPiece, hi, hw]
    have hmark := hslice.marked hadm (h.tracks.planner ▸ h.tracks.coherent.routes) hfit ht
      (hm.1 i (List.mem_of_mem_head? hi)) k
    show _ = carried Value (l.pieces ++ CacheLog.newPiece l.log ⟨s.memory, op⟩ r) k _
    rw [hnew, carried_append, ← h.applied k hk]
    exact hmark
  | same hout hv ha =>
    rw [ha k hk, h.applied k hk]
    cases out with
    | called c r =>
      show _ = carried Value (l.pieces ++ CacheLog.newPiece l.log c r) k _
      rw [carried_append, carried_newPiece l.log (fun w hw => hout c r w rfl hw)]
    | _ => rfl

/-! ## The end of a work -/

/-- The pieces of the instance in front are the last ones. -/
theorem Tracks.front_pieces (h : Tracks p b g) {i : Instance} {is : List Instance} (hg : g.queued = i :: is) :
    g.instances.flatMap Instance.pieces = (g.released.map Prod.fst).flatMap Instance.pieces ++ i.pieces := by
  have htail : is.flatMap Instance.pieces = [] := by
    rw [List.flatMap_eq_nil_iff]
    intro j hj
    simp [Instance.pieces, (h.tail_empty j (by rw [hg]; exact hj)).2]
  simp [Log.instances, hg, htail]

/-- A work retired as applied was the one in front, and its fragments cover its range. -/
theorem Tracks.retired_front (h : Tracks p b g) {r : StoreForwardCompletion} (hs : Step b c (.completion r) b')
    (hst : r.status = .completed) (hret : r.workRetired = true) (hout : r.work.outcome = .applied) :
    ∃ i is w, g.queued = i :: is ∧ appliedWrite c (.completion r) = some w ∧
      (g.observe c (.completion r)).released.getLast? = some (i.noted none (writeAnswer c (.completion r)), .completed r) ∧
      i.pieces ++ [(i.origin, w)] = i.issued.map (i.origin, ·) ∧
      ∀ k, i.work.start.toNat ≤ k → k < i.work.start.toNat + i.work.count.toNat → ∃ w ∈ i.issued, w.Covers i.work.table k := by
  generalize hres : Res.completion r = res at hs
  cases hs with
  | refused hr hq =>
    subst hres
    simp [Res.effective, hst] at hr
  | pollCompleted =>
    cases hres
    cases hret
  | stale =>
    cases hres
    cases hst
  | @settled mem a outcome session s rest l ho hknown hcur hq hl hrecords =>
    cases hres
    have hretires : retires a.write outcome = true := hret
    obtain rfl : outcome = .applied := by
      have hsummary : workOutcomeFor outcome = .applied := by simpa [settledResult, summaryFor, hretires] using hout
      cases outcome <;> simp_all [workOutcomeFor]
    have hfin : a.write.finalFragment = true := by simpa [retires] using hretires
    obtain ⟨i, is, hg, hi, _⟩ := h.front hq
    have hissued := h.coherent.outstanding_front ho hq
    rw [ho] at hi
    have hadm := h.admitted_front hg
    refine ⟨i, is, a.write, hg, rfl, ?_, ?_, fun k hlo hhi => hi.sent.reach hadm.fresh hlo ?_⟩
    · rw [Log.observe_eq (by simp)]
      simp [admittedInstance, issuedWrite, frontRelease, settledResult, hretires, Log.release, Log.note, Log.enqueue, hg,
        Instance.noted]
    · rw [hi.pieces_eq, hi.issued]
      simp
    · have hsplit := hi.sent.sameWork.quantity ▸ hissued.1.ok.split
      rw [hissued.1.final_iff.1 hfin] at hsplit
      simp [Instance.slot] at hsplit
      omega
  | _ => cases hres

/-- **The image after a work**: with its last fragment applied it holds the whole snapshot. -/
theorem Mirrors.retired (hfit : (caches.of Value).Fits p.routes (WorkTraits.table Value)) {a : StoreForwardAction}
    {outcome : DownstreamOutcome} {session : SessionStateView}
    (hm : CachedBridge.Honest caches s l (.call (.complete a outcome session))) (h : Mirrors Value p caches mem₀ s l)
    {r : StoreForwardCompletion} (hr : (s.bridge.complete a outcome session).1 = r) (hst : r.status = .completed)
    (hret : r.workRetired = true) (hout : r.work.outcome = .applied) :
    ∃ i, (l.observe (.call (.complete a outcome session))
        (CachedBridge.exec caches s (.call (.complete a outcome session))).1).log.released.getLast? = some (i, .completed r) ∧
      (i.work.table = WorkTraits.table Value → ∀ k, i.work.start.toNat ≤ k → k < i.work.start.toNat + i.work.count.toNat →
        (caches.of Value).applied.cell (CachedBridge.exec caches s (.call (.complete a outcome session))).2.memory k =
          i.value Value k) := by
  subst hr
  have hafter := h.step hfit hm
  have hs := exec_step h.tracks.coherent ⟨s.memory, .complete a outcome session⟩
  obtain ⟨i, is, w, hg, hw, hrel, hpieces, hcovers⟩ := h.tracks.retired_front hs hst hret hout
  have hadm := h.tracks.admitted_front hg
  refine ⟨_, hrel, ?_⟩
  intro ht k hlo hhi
  have hk := hadm.within_image (h.tracks.planner ▸ h.tracks.coherent.routes) (ht ▸ hfit)
  have hall : (l.observe (.call (.complete a outcome session))
      (CachedBridge.exec caches s (.call (.complete a outcome session))).1).pieces =
      (l.log.released.map Prod.fst).flatMap Instance.pieces ++ i.issued.map (i.origin, ·) := by
    show l.pieces ++ CacheLog.newPiece l.log _ (.completion (s.bridge.complete a outcome session).1) = _
    rw [h.pieces, h.tracks.front_pieces hg, List.append_assoc, ← hpieces]
    simp [CacheLog.newPiece, hg, hw]
  rw [hafter.applied k (Nat.lt_of_lt_of_le hhi hk), hall, carried_append]
  obtain ⟨w', hw', hcov⟩ := hcovers k hlo hhi
  refine carried_agree (fun x hx => ?_) ⟨(i.origin, w'), List.mem_map_of_mem hw', ht ▸ hcov⟩
  obtain ⟨_, _, rfl⟩ := List.mem_map.1 hx
  rfl

end

/-! ## What the images hold -/

section
variable (Value : Type) [CachedElement Value]

/-- What becomes of the two images of one element type in a run. -/
structure ImagesExact (caches : Caches) (s : CachedBridge) (inputs : List Input) : Prop where
  /-- The applied image holds what the last fragment completed as applied carries, or what it held. -/
  applied : ∀ k < (caches.of Value).applied.count.toNat, (caches.of Value).applied.cell (s.run caches inputs).memory k =
    carried Value (s.log caches inputs).pieces k ((caches.of Value).applied.cell s.memory k)
  /-- Only the caller's own requests to this cache change the visible image. -/
  visible : ∀ e ∈ s.history caches inputs, (∀ op, e.input ≠ CachedElement.request Value op) →
    (caches.of Value).visible.Same e.before.memory (CachedBridge.exec caches e.before e.input).2.memory
  /-- A capture overwrites exactly its range, or nothing. -/
  captured : ∀ e ∈ s.history caches inputs, ∀ start source count,
    e.input = CachedElement.request Value (.captureDesired start source count) →
    (e.output = .moved false ∧ (CachedBridge.exec caches e.before e.input).2.memory = e.before.memory) ∨
    (e.output = .moved true ∧ ∀ k,
      (caches.of Value).visible.cell (CachedBridge.exec caches e.before e.input).2.memory k =
        if start.toNat ≤ k ∧ k < start.toNat + count.toNat then
          MemoryCell.load e.before.memory (source.add (k - start.toNat))
        else (caches.of Value).visible.cell e.before.memory k)
  /-- After a restore the two images agree on its range. -/
  restored : ∀ e ∈ s.history caches inputs, ∀ start count, e.input = CachedElement.request Value (.restore start count) →
    (e.output = .moved false ∧ (CachedBridge.exec caches e.before e.input).2.memory = e.before.memory) ∨
    (e.output = .moved true ∧ ∀ k,
      (caches.of Value).visible.cell (CachedBridge.exec caches e.before e.input).2.memory k =
        if start.toNat ≤ k ∧ k < start.toNat + count.toNat then
          (caches.of Value).applied.cell (CachedBridge.exec caches e.before e.input).2.memory k
        else (caches.of Value).visible.cell e.before.memory k)
  /-- After the completion that retires a work as applied, its whole snapshot is in the image. -/
  retired : ∀ before a outcome session, inputs = before ++ [.call (.complete a outcome session)] →
    ∀ r, ((s.run caches before).bridge.complete a outcome session).1 = r → r.status = .completed → r.workRetired = true →
    r.work.outcome = .applied → ∃ i, (s.log caches inputs).log.released.getLast? = some (i, .completed r) ∧
      (i.work.table = WorkTraits.table Value → ∀ k, i.work.start.toNat ≤ k → k < i.work.start.toNat + i.work.count.toNat →
        (caches.of Value).applied.cell (s.run caches inputs).memory k = i.value Value k)

variable {Value} [LawfulElement Value] {caches : Caches} {s : CachedBridge} {inputs : List Input}

omit [LawfulElement Value] in
theorem Mirrors.init (hb : s.bridge.Deployed) (caches : Caches) :
    Mirrors Value s.bridge.forwardPlanner caches s.memory s {} :=
  ⟨log_tracks hb [], rfl, fun _ _ => rfl⟩

theorem images_exact (hb : s.bridge.Deployed)
    (hfit : (caches.of Value).Fits s.bridge.forwardPlanner.routes (WorkTraits.table Value)) (hm : s.Keeps caches inputs) :
    ImagesExact Value caches s inputs := by
  have hinit : Mirrors Value s.bridge.forwardPlanner caches s.memory s {} := .init hb caches
  have hevents := Machine.simulates_trace_of (CachedBridge.exec caches) (fun _ _ _ hok h => h.step hfit hok) hinit hm
  refine ⟨?_, ?_, ?_, ?_, ?_⟩
  · exact (Machine.simulates_final_of (CachedBridge.exec caches) (fun _ _ _ hok h => h.step hfit hok) hinit hm).applied
  · intro e he hin
    obtain ⟨l, h, hok, _⟩ := hevents e he
    have heffect := exec_effect Value caches h.tracks.coherent e.input fun mem hi => by
      have := hok.2
      rw [hi] at this
      exact this
    generalize CachedBridge.exec caches e.before e.input = next at heffect ⊢
    generalize e.input = input at heffect hin
    obtain ⟨out, s'⟩ := next
    cases heffect with
    | moved op => exact absurd rfl (hin op)
    | marked => exact MutableImageView.copyFrom_apart hfit.apart.symm _ _ _
    | same _ hv _ => exact hv
  · intro e he start source count hin
    obtain ⟨l, h, hok, hout⟩ := hevents e he
    rw [hout, hin, LawfulElement.requested]
    rcases (caches.of Value).captureDesired_spec e.before.memory start source count with heq | ⟨htrue, hcells⟩
    · exact Or.inl (by simp only [CacheOp.perform, heq, and_self])
    · exact Or.inr ⟨congrArg Output.moved htrue, hcells⟩
  · intro e he start count hin
    obtain ⟨l, h, hok, hout⟩ := hevents e he
    rw [hout, hin, LawfulElement.requested]
    rcases DesiredAppliedCache.restore_spec e.before.memory hfit.apart start count with heq | ⟨htrue, hcells⟩
    · exact Or.inl (by simp only [CacheOp.perform, heq, and_self])
    · exact Or.inr ⟨congrArg Output.moved htrue, hcells⟩
  · intro before a outcome session hin r hr hst hret hout
    subst hin
    obtain ⟨hbefore, hlast⟩ := Machine.Meets.concat (CachedBridge.exec caches) hm
    have h := Machine.simulates_final_of (CachedBridge.exec caches) (fun _ _ _ hok h => h.step hfit hok) hinit hbefore
    have hretired := h.retired hfit hlast hr hst hret hout
    unfold CachedBridge.run CachedBridge.log CachedBridge.history
    rw [Machine.trace_append, Machine.observe_append, Machine.final_append]
    exact hretired

end

/-- A call that completes nothing as applied leaves the memory alone. -/
theorem CachedBridge.exec_memory {caches : Caches} {s : CachedBridge} (hs : s.bridge.Coherent) {input : Input}
    (hout : (exec caches s input).1 = .called c r) (hnone : appliedWrite c r = none) :
    (exec caches s input).2.memory = s.memory := by
  cases input with
  | call op =>
    cases hout
    rcases (exec_step hs ⟨s.memory, op⟩).recorded caches with ⟨w, _, hw, _⟩ | ⟨_, hrec⟩
    · rw [hnone] at hw
      cases hw
    · exact hrec
  | _ => cases hout

/-- **The applied images track exactly the applied fragments.** Each element is the one the last
fragment covering it carried that was completed as applied; every other completion leaves both
images alone, and none touches the visible one. -/
theorem applied_images_track {caches : Caches} {s : CachedBridge} (hb : s.bridge.Deployed)
    (hcoils : caches.coils.Fits s.bridge.forwardPlanner.routes .coils)
    (hholding : caches.holding.Fits s.bridge.forwardPlanner.routes .holdingRegisters) (inputs : List Input)
    (hm : s.Keeps caches inputs) :
    ImagesExact Bool caches s inputs ∧ ImagesExact UInt16 caches s inputs ∧
    ∀ e ∈ s.history caches inputs, ∀ c r, e.output = .called c r → appliedWrite c r = none →
      (CachedBridge.exec caches e.before e.input).2.memory = e.before.memory := by
  refine ⟨images_exact hb hcoils hm, images_exact hb hholding hm, ?_⟩
  intro e he c r hout hnone
  have hinit : Mirrors Bool s.bridge.forwardPlanner caches s.memory s {} := .init hb caches
  obtain ⟨l, h, _, hexec⟩ := Machine.simulates_trace_of (CachedBridge.exec caches)
    (fun _ _ _ hok h => h.step hcoils hok) hinit hm e he
  exact CachedBridge.exec_memory h.tracks.coherent (hexec.symm.trans hout) hnone

/-- Images of the holding registers up to address 103. -/
def testCaches : Caches :=
  { coils := ⟨⟨⟨5, 0⟩, 0⟩, ⟨⟨6, 0⟩, 0⟩⟩, holding := ⟨⟨⟨7, 0⟩, 104⟩, ⟨⟨8, 0⟩, 104⟩⟩ }

/-- The first work of the test is captured and forwarded; then its range is restored. -/
def testInputs : List Input :=
  .holding (.captureDesired 100 ⟨1, 0⟩ 4) :: (testCalls 2).map (fun c => .call c.op) ++ [.holding (.restore 100 4)]

theorem applied_images_track_test :
    ImagesExact UInt16 testCaches ⟨testBridge, testMemory⟩ testInputs ∧
    (List.range 4).map (fun j => testCaches.holding.applied.cell
      (CachedBridge.run testCaches ⟨testBridge, testMemory⟩ testInputs).memory (100 + j)) = [1, 2, 3, 4] :=
  have h := applied_images_track (s := ⟨testBridge, testMemory⟩) testBridge_deployed
    ⟨by decide, by decide +kernel, by decide +kernel⟩ ⟨by decide, by decide +kernel, by decide +kernel⟩ testInputs
    (by decide +kernel)
  ⟨h.2.1, by decide +kernel⟩

end ModbusRTUBridge
