import Mathlib.Data.List.Forall2
import ModbusRTUBridge.History
/-!
# The log keeps up with the facade

`Tracks` relates a facade to its log: the queued instances stand in the queue in the same order,
the fragments issued of the front work are those its slot has moved past (`Sent`), all of them
but an outstanding one were completed as applied, and every released instance was released
truthfully. Every step keeps it, so it holds at the end of every run.
-/

namespace ModbusRTUBridge

/-! ## The fragments sent of a work -/

/-- Two slots of one work, whatever their cursors. -/
structure SameWork (s s₀ : StoreForwardWorkSlot) : Prop where
  table : s.table = s₀.table
  identity : s.workIdentity = s₀.workIdentity
  start : s.upstreamStart = s₀.upstreamStart
  quantity : s.quantity = s₀.quantity
  delivery : s.workDelivery = s₀.workDelivery
  snapshot : s.snapshot = s₀.snapshot
  context : s.userContext = s₀.userContext

/-- `ws` are the fragments sent of a work queued as `s₀`; they leave slot `s`. -/
inductive Sent (p : ForwardPlanner) (s₀ : StoreForwardWorkSlot) :
    List PlannedWriteRequest → StoreForwardWorkSlot → Prop
  | none : Sent p s₀ [] s₀
  | next {ws s w sequence} (h : Sent p s₀ ws s) (hok : s.Ok p) (hr : s.remaining ≠ 0) (ht : s.Takes w sequence)
      (hs : sequence ≠ 0) : Sent p s₀ (ws ++ [w]) (s.advance w.quantity)

/-- How many elements the fragments carry. -/
def elementCount (ws : List PlannedWriteRequest) : Nat := ws.foldl (fun n w => n + w.quantity.toNat) 0

@[simp] theorem elementCount_snoc (ws : List PlannedWriteRequest) (w : PlannedWriteRequest) :
    elementCount (ws ++ [w]) = elementCount ws + w.quantity.toNat := by
  simp [elementCount]

/-- `ws` cut the range `[start, start + count)` into consecutive pieces, the last of them marked
as the final one. -/
structure Covers (start count : UInt16) (ws : List PlannedWriteRequest) : Prop where
  consecutive : ∀ k w, ws[k]? = some w → w.identity.fragmentIndex.toNat = k ∧ 0 < w.quantity.toNat ∧
    w.sourceOffset.toNat = elementCount (ws.take k) ∧
    w.upstreamStart.toNat = start.toNat + w.sourceOffset.toNat
  whole : elementCount ws = count.toNat
  last : ∀ k w, ws[k]? = some w → (w.finalFragment = true ↔ k + 1 = ws.length)

namespace Sent

variable {p : ForwardPlanner} {s₀ s : StoreForwardWorkSlot} {ws : List PlannedWriteRequest} {w : PlannedWriteRequest}

theorem sameWork (h : Sent p s₀ ws s) : SameWork s s₀ := by
  induction h with
  | none => exact ⟨rfl, rfl, rfl, rfl, rfl, rfl, rfl⟩
  | next _ _ _ _ _ ih => exact ⟨ih.table, ih.identity, ih.start, ih.quantity, ih.delivery, ih.snapshot, ih.context⟩

theorem ok (h : Sent p s₀ ws s) (hok : s₀.Ok p) : s.Ok p := by
  cases h with
  | none => exact hok
  | next _ hok hr ht _ => exact hok.advance hr ht.pos ht.le_remaining

/-- The slot stands after as many fragments and as many elements as were sent. -/
theorem position (h : Sent p s₀ ws s) (hf : s₀.Fresh) :
    s.fragmentIndex.toNat = ws.length ∧ s.sourceOffset.toNat = elementCount ws := by
  induction h with
  | none => rw [hf.fragmentIndex, hf.sourceOffset]; exact ⟨rfl, rfl⟩
  | @next ws s w sequence h hok hr ht hs ih =>
    obtain ⟨h1, h2⟩ := ih
    have hidx := hok.index_lt hr
    have hsplit := hok.split
    have hle := ht.le_remaining
    have hlt := s.quantity.toNat_lt
    have hindex : (s.fragmentIndex + 1).toNat = s.fragmentIndex.toNat + 1 := toNat_succ_of_lt (by omega)
    have hoff : (s.sourceOffset + w.quantity).toNat = s.sourceOffset.toNat + w.quantity.toNat :=
      toNat_add_of_lt (by omega)
    constructor
    · show (s.fragmentIndex + 1).toNat = _
      simp [hindex, h1]
    · show (s.sourceOffset + w.quantity).toNat = _
      simp [hoff, h2]

/-- Each fragment was taken from the slot the fragments before it left. -/
theorem get (h : Sent p s₀ ws s) {k : Nat} (hk : ws[k]? = some w) :
    ∃ s' sequence, Sent p s₀ (ws.take k) s' ∧ s'.Ok p ∧ s'.remaining ≠ 0 ∧ s'.Takes w sequence ∧ sequence ≠ 0 := by
  induction h with
  | none => simp at hk
  | @next ws s w' sequence h hok hr ht hs ih =>
    rcases Nat.lt_or_ge k ws.length with hlt | hge
    · rw [List.getElem?_append_left hlt] at hk
      rw [List.take_append_of_le_length (Nat.le_of_lt hlt)]
      exact ih hk
    · obtain rfl : k = ws.length := by
        have := (List.getElem?_eq_some_iff.1 hk).1
        simp only [List.length_append, List.length_cons, List.length_nil] at this
        omega
      rw [List.getElem?_append_right (Nat.le_refl _)] at hk
      simp only [Nat.sub_self, List.getElem?_cons_zero, Option.some.injEq] at hk
      subst hk
      exact ⟨s, sequence, by rw [List.take_left]; exact h, hok, hr, ht, hs⟩

theorem identity_eq (h : Sent p s₀ ws s) (hw : w ∈ ws) : w.identity.work = s₀.workIdentity := by
  obtain ⟨k, hk⟩ := List.mem_iff_getElem?.1 hw
  obtain ⟨s', _, hs', _, _, ht, _⟩ := h.get hk
  rw [ht.identity]
  exact hs'.sameWork.identity

/-- Through the end of the work the fragments cover it. -/
theorem covers (h : Sent p s₀ ws s) (hf : s₀.Fresh) (hok : s.Ok p) (hr : s.remaining = 0) :
    Covers s₀.upstreamStart s₀.quantity ws := by
  have hend : elementCount ws = s₀.quantity.toNat := by
    have hsplit := hok.split
    rw [hr, (h.position hf).2, h.sameWork.quantity] at hsplit
    simpa using hsplit
  refine ⟨?_, hend, ?_⟩
  · intro k w hk
    obtain ⟨s', _, hs', hok', hr', ht, _⟩ := h.get hk
    obtain ⟨hidx, hoff⟩ := hs'.position hf
    have hlen := (List.getElem?_eq_some_iff.1 hk).1
    refine ⟨?_, ht.pos, ?_, ?_⟩
    · rw [ht.identity]
      simpa [Nat.min_eq_left (Nat.le_of_lt hlen)] using hidx
    · rw [ht.sourceOffset, hoff]
    · rw [ht.upstreamStart, hok'.toNat_nextAddress hr', hs'.sameWork.start, ht.sourceOffset]
  · intro k w hk
    obtain ⟨s', _, hs', hok', hr', ht, _⟩ := h.get hk
    have hlen := (List.getElem?_eq_some_iff.1 hk).1
    have hsum : elementCount (ws.take (k + 1)) = s'.sourceOffset.toNat + w.quantity.toNat := by
      rw [List.take_add_one, hk]
      simp [(hs'.position hf).2]
    have hsplit := hok'.split
    rw [hs'.sameWork.quantity] at hsplit
    rw [ht.final_iff, ← UInt16.toNat_inj]
    constructor
    · intro he
      -- a later fragment would start at the end of the work
      by_contra hne
      obtain ⟨w', hk'⟩ : ∃ w', ws[k + 1]? = some w' := ⟨_, List.getElem?_eq_getElem (by omega)⟩
      obtain ⟨s'', _, hs'', hok'', hr'', _⟩ := h.get hk'
      have hsplit'' := hok''.split
      rw [hs''.sameWork.quantity, (hs''.position hf).2, hsum] at hsplit''
      exact hr'' (UInt16.toNat_inj.1 (by show s''.remaining.toNat = 0; omega))
    · intro he
      rw [he, List.take_length] at hsum
      omega

end Sent

/-! ## An instance and its slot -/

/-- The answer to a fragment after which the work goes on. -/
structure Answer.Progress (x : Answer) : Prop where
  status : x.result.status = .completed
  outcome : x.outcome = .applied
  notice : x.result.decision.notice = .none
  kept : x.result.workRetired = false
  more : x.write.finalFragment = false

/-- What the admission of an instance established. -/
structure Instance.Admitted (p : ForwardPlanner) (i : Instance) : Prop where
  ready : i.work.beginStatus p = .ready
  ok : i.slot.Ok p
  fresh : i.slot.Fresh

/-- Slot `s` is where instance `i` stands: every fragment sent so far was applied, except the one
of `outstanding`. -/
structure InProgress (p : ForwardPlanner) (i : Instance) (s : StoreForwardWorkSlot)
    (outstanding : Option StoreForwardAction) : Prop where
  sent : Sent p i.slot i.issued s
  issued : i.issued = i.answers.map (·.write) ++ (outstanding.map (·.write)).toList
  applied : ∀ x ∈ i.answers, x.Progress

/-- Nothing was issued of a work behind the front. -/
def Waiting (p : ForwardPlanner) (i : Instance) (s : StoreForwardWorkSlot) : Prop := InProgress p i s none ∧ i.issued = []

/-- Instance and slot lists agree. -/
def Follows (p : ForwardPlanner) : List Instance → List StoreForwardWorkSlot → Option StoreForwardAction → Prop
  | [], [], _ => True
  | i :: is, s :: rest, outstanding => InProgress p i s outstanding ∧ List.Forall₂ (Waiting p) is rest
  | _, _, _ => False

/-- What is known of a released instance: where it stood, and that the release speaks of it. -/
def Closed (p : ForwardPlanner) (i : Instance) : Release → Prop
  | .completed r => ∃ before s a outcome, InProgress p { i with answers := before } s (some a) ∧
      s.Issued p a ∧ i.answers = before ++ [⟨a.write, outcome, r⟩] ∧
      (r = StoreForwardBridge.settledResult a outcome ∧ retires a.write outcome = true ∨
        r = StoreForwardBridge.staleResult a outcome)
  | .retired r => ∃ s, InProgress p i s none ∧ r = StoreForwardBridge.retirementOf s
  | .reset => ∃ s, InProgress p i s none

/-- **The log of a facade.** -/
structure Tracks (p : ForwardPlanner) (b : StoreForwardBridge) (g : Log) : Prop where
  coherent : b.Coherent
  planner : b.forwardPlanner = p
  admitted : ∀ i ∈ g.instances, i.Admitted p
  queued : Follows p g.queued b.queue b.outstanding
  released : ∀ x ∈ g.released, Closed p x.1 x.2

section
variable {p : ForwardPlanner} {g : Log} {is : List Instance} {i : Instance} {s : StoreForwardWorkSlot}
  {queue rest : List StoreForwardWorkSlot} {outstanding : Option StoreForwardAction}

theorem Follows.of_waiting (h : List.Forall₂ (Waiting p) is rest) : Follows p is rest none := by
  cases h with
  | nil => trivial
  | cons h hs => exact ⟨h.1, hs⟩

theorem Follows.cons_inv (h : Follows p is (s :: rest) outstanding) :
    ∃ i is', is = i :: is' ∧ InProgress p i s outstanding ∧ List.Forall₂ (Waiting p) is' rest := by
  cases is with
  | nil => exact h.elim
  | cons i is' => exact ⟨i, is', rfl, h.1, h.2⟩

theorem Follows.nil_inv (h : Follows p is [] outstanding) : is = [] := by
  cases is with
  | nil => rfl
  | cons i is' => exact h.elim

theorem Follows.length_eq (h : Follows p is queue outstanding) : is.length = queue.length := by
  cases queue with
  | nil => rw [h.nil_inv]; rfl
  | cons s rest =>
    obtain ⟨i, is', rfl, _, hw⟩ := h.cons_inv
    simp [hw.length_eq]

/-- A new work at the back. -/
theorem Follows.push (h : Follows p is queue outstanding) (hw : Waiting p i s) (hidle : queue = [] → outstanding = none) :
    Follows p (is ++ [i]) (queue ++ [s]) outstanding := by
  cases queue with
  | nil =>
    rw [h.nil_inv, hidle rfl]
    exact ⟨hw.1, .nil⟩
  | cons f rest =>
    obtain ⟨j, is', rfl, hj, hw'⟩ := h.cons_inv
    exact ⟨hj, List.rel_append hw' (.cons hw .nil)⟩

/-- Every queued instance stands somewhere. -/
theorem Follows.inProgress (h : Follows p is queue outstanding) (hi : i ∈ is) :
    ∃ s ∈ queue, ∃ o, InProgress p i s o ∧ (o = none ∨ o = outstanding) := by
  cases queue with
  | nil => rw [h.nil_inv] at hi; cases hi
  | cons f rest =>
    obtain ⟨j, is', rfl, hj, hw⟩ := h.cons_inv
    rcases List.mem_cons.1 hi with rfl | hi
    · exact ⟨f, List.mem_cons_self, outstanding, hj, Or.inr rfl⟩
    · obtain ⟨k, hk, rfl⟩ := List.mem_iff_getElem.1 hi
      have hk' : k < rest.length := hw.length_eq ▸ hk
      exact ⟨rest[k], List.mem_cons_of_mem _ (List.getElem_mem hk'), none, (hw.get hk hk').1, Or.inl rfl⟩

end

/-! ## The observer, step by step -/

namespace Log

variable {g : Log} {c : Call} {r : Res}

@[simp] theorem enqueue_none (g : Log) : g.enqueue none = g := by simp [enqueue]

@[simp] theorem note_none (g : Log) : g.note none none = g := by
  cases g with | mk released queued => cases queued <;> simp [note]

@[simp] theorem release_none (g : Log) : g.release none = g := rfl

theorem release_some {i : Instance} {is : List Instance} (h : g.queued = i :: is) (how : Release) :
    g.release (some how) = { released := g.released ++ [(i, how)], queued := is } := by
  simp [release, h]

@[simp] theorem instances_enqueue (g : Log) (i : Option Instance) : (g.enqueue i).instances = g.instances ++ i.toList := by
  simp [enqueue, instances]

/-- Releasing only moves an instance. -/
@[simp] theorem instances_release (g : Log) (how : Option Release) : (g.release how).instances = g.instances := by
  cases how with
  | none => rfl
  | some how => cases hq : g.queued <;> simp [release, instances, hq]

@[simp] theorem instances_releaseAll (g : Log) : g.releaseAll.instances = g.instances := by
  simp [releaseAll, instances, Function.comp_def]

theorem observe_eq (h : r ≠ .reset true) : g.observe c r =
    ((g.enqueue (admittedInstance c r)).note (issuedWrite c r) (writeAnswer c r)).release (frontRelease r) := by
  cases r with
  | reset done => cases done <;> first | exact absurd rfl h | rfl
  | _ => rfl

/-- A refused completion answers nothing. -/
theorem writeAnswer_refused (hr : r.effective = false) : writeAnswer c r = none := by
  cases r with
  | completion r =>
    simp only [Res.effective, Bool.or_eq_false_iff, beq_eq_false_iff_ne] at hr
    obtain ⟨mem, op⟩ := c
    cases op <;> simp [writeAnswer, StoreForwardBridge.Taken, hr.1, hr.2]
  | _ => rfl

/-- A refused call leaves no trace. -/
theorem observe_refused (hr : r.effective = false) (hq : StoreForwardBridge.Quiet r) : g.observe c r = g := by
  have hne : r ≠ .reset true := fun e => by rw [e] at hr; cases hr
  have h1 : admittedInstance c r = none := by
    cases r with
    | admission r =>
      have : r.status ≠ .admitted := by simpa [Res.effective] using hr
      obtain ⟨mem, op⟩ := c
      cases op <;> simp [admittedInstance, this]
    | _ => rfl
  have h2 : issuedWrite c r = none := by
    cases r with
    | actionAdmission status =>
      simp only [Res.effective, Bool.or_eq_false_iff, beq_eq_false_iff_ne] at hr
      obtain ⟨mem, op⟩ := c
      cases op <;> simp [issuedWrite, hr.1]
    | _ => rfl
  have h4 : frontRelease r = none := by
    cases r with
    | completion r => simp [frontRelease, (hq r rfl).2]
    | retirement status r =>
      have : status ≠ .retired := by simpa [Res.effective] using hr
      simp [frontRelease, this]
    | _ => rfl
  rw [observe_eq hne, h1, h2, writeAnswer_refused hr, h4]
  simp

end Log

/-! ## Every step keeps the log -/

open StoreForwardBridge

variable {p : ForwardPlanner} {b b' : StoreForwardBridge} {g : Log} {c : Call} {r : Res} {s : StoreForwardWorkSlot}
  {rest : List StoreForwardWorkSlot}

namespace Log

variable {mem : Memory} {session : SessionStateView} {polls : Storage PollCandidate} {n : UInt16} {a : StoreForwardAction}
  {outcome : DownstreamOutcome}

theorem observe_issued (hk : a.kind = .forwardWrite) :
    g.observe ⟨mem, .admitAction a session polls n⟩ (.actionAdmission .admitted) = g.note (some a.write) none := by
  rw [observe_eq (by simp)]
  simp [admittedInstance, issuedWrite, writeAnswer, frontRelease, hk]

theorem observe_pollCompleted : g.observe ⟨mem, .complete a outcome session⟩
    (.completion { status := .completed, kind := .poll, outcome, workContext := a.workContext }) = g := by
  rw [observe_eq (by simp)]
  simp [admittedInstance, issuedWrite, writeAnswer, frontRelease]

theorem observe_settled : g.observe ⟨mem, .complete a outcome session⟩ (.completion (settledResult a outcome)) =
    (g.note none (some ⟨a.write, outcome, settledResult a outcome⟩)).release
      (if retires a.write outcome then some (.completed (settledResult a outcome)) else none) := by
  rw [observe_eq (by simp)]
  simp [admittedInstance, issuedWrite, writeAnswer, frontRelease, settledResult, Taken]
  rfl

theorem observe_stale : g.observe ⟨mem, .complete a outcome session⟩ (.completion (staleResult a outcome)) =
    (g.note none (some ⟨a.write, outcome, staleResult a outcome⟩)).release
      (some (.completed (staleResult a outcome))) := by
  rw [observe_eq (by simp)]
  simp [admittedInstance, issuedWrite, writeAnswer, frontRelease, staleResult, Taken]

theorem observe_dropped : g.observe c (.retirement .retired (retirementOf s)) =
    (g.note none none).release (some (.retired (retirementOf s))) := by
  rw [observe_eq (by simp)]
  simp [admittedInstance, issuedWrite, writeAnswer, frontRelease]

end Log

/-- The front of the queue and the front of the log. -/
theorem Tracks.front (h : Tracks p b g) (hq : b.queue = s :: rest) :
    ∃ i is, g.queued = i :: is ∧ InProgress p i s b.outstanding ∧ List.Forall₂ (Waiting p) is rest :=
  Follows.cons_inv (hq ▸ h.queued)

/-- The same, for a log whose front is known. -/
theorem Tracks.front_at (h : Tracks p b g) (hq : b.queue = s :: rest) {i : Instance} {is : List Instance}
    (hg : g.queued = i :: is) : InProgress p i s b.outstanding ∧ List.Forall₂ (Waiting p) is rest := by
  have hqueued := h.queued
  rw [hq, hg] at hqueued
  exact hqueued

theorem Tracks.admitted_front (h : Tracks p b g) {i : Instance} {is : List Instance} (hg : g.queued = i :: is) :
    i.Admitted p := h.admitted i (List.mem_append_right _ (by rw [hg]; exact List.mem_cons_self))

theorem Tracks.slot_ok (h : Tracks p b g) (hq : b.queue = s :: rest) : s.Ok p :=
  h.planner ▸ h.coherent.filed.slots s (by rw [hq]; exact List.mem_cons_self)

/-- An idle step that moves neither queue nor log. -/
theorem Tracks.of_same (h : Tracks p b g) (hb : b'.Coherent) (hp : b'.forwardPlanner = b.forwardPlanner)
    (hq : b'.queue = b.queue) (ho : b'.outstanding = b.outstanding) : Tracks p b' g :=
  ⟨hb, hp.trans h.planner, h.admitted, by rw [hq, ho]; exact h.queued, h.released⟩

/-- A new work joins the queue. -/
theorem Tracks.of_enqueue (h : Tracks p b g) (hb : b'.Coherent) (hp : b'.forwardPlanner = b.forwardPlanner) {i : Instance}
    (hi : i.Admitted p) (hw : Waiting p i i.slot) (hq : b'.queue = b.queue ++ [i.slot])
    (ho : b'.outstanding = b.outstanding) :
    Tracks p b' (g.enqueue (some i)) := by
  refine ⟨hb, hp.trans h.planner, ?_, ?_, h.released⟩
  · intro j hj
    rw [Log.instances_enqueue] at hj
    rcases List.mem_append.1 hj with hj | hj
    · exact h.admitted j hj
    · rw [Option.toList_some, List.mem_singleton] at hj
      rw [hj]
      exact hi
  · show Follows p (g.queued ++ [i]) b'.queue b'.outstanding
    rw [hq, ho]
    refine h.queued.push hw fun he => ?_
    cases hout : b.outstanding with
    | none => rfl
    | some a => exact absurd he (h.coherent.filed.owner (by rw [hout]; rfl))

/-- All works leave at once. -/
theorem Tracks.of_releaseAll (h : Tracks p b g) (hb : b'.Coherent) (hp : b'.forwardPlanner = b.forwardPlanner)
    (hidle : b.outstanding = none) (hq : b'.queue = []) : Tracks p b' g.releaseAll := by
  refine ⟨hb, hp.trans h.planner, fun i hi => h.admitted i (by simpa using hi), ?_, ?_⟩
  · rw [hq]
    trivial
  · intro x hx
    rcases List.mem_append.1 hx with hx | hx
    · exact h.released x hx
    · obtain ⟨i, hi, rfl⟩ := List.mem_map.1 hx
      obtain ⟨s, _, o, hs, ho⟩ := h.queued.inProgress hi
      obtain rfl : o = none := ho.elim id fun e => e.trans hidle
      exact ⟨s, hs⟩

/-- What is noted of the front instance leaves its admission as it was. -/
theorem Tracks.admitted_noted (h : Tracks p b g) {i : Instance} {is : List Instance} (hg : g.queued = i :: is)
    (issued : List PlannedWriteRequest) (answers : List Answer) :
    ∀ j ∈ g.released.map Prod.fst ++ { i with issued, answers } :: is, j.Admitted p := by
  have hadm : ∀ j ∈ g.released.map Prod.fst ++ i :: is, j.Admitted p := by
    intro j hj
    exact h.admitted j (by simpa [Log.instances, hg] using hj)
  intro j hj
  simp only [List.mem_append, List.mem_cons] at hj
  rcases hj with hj | rfl | hj
  · exact hadm j (List.mem_append_left _ hj)
  · obtain ⟨h1, h2, h3⟩ := hadm i (by simp)
    exact ⟨h1, h2, h3⟩
  · exact hadm j (by simp [hj])

/-- The front work leaves with a truthful release. -/
theorem Tracks.of_release (h : Tracks p b g) (hb : b'.Coherent) (hp : b'.forwardPlanner = b.forwardPlanner)
    (hq : b.queue = s :: rest) (hq' : b'.queue = rest) (ho : b'.outstanding = none) {how : Release} {i : Instance}
    {is : List Instance} (hg : g.queued = i :: is) {x : Option Answer}
    (hclosed : Closed p { i with answers := i.answers ++ x.toList } how) :
    Tracks p b' ((g.note none x).release (some how)) := by
  obtain ⟨_, hw⟩ := h.front_at hq hg
  have hnote : (g.note none x).queued = { i with answers := i.answers ++ x.toList } :: is := by simp [Log.note, hg]
  rw [Log.release_some hnote]
  refine ⟨hb, hp.trans h.planner, ?_, ?_, ?_⟩
  · intro j hj
    refine h.admitted_noted hg i.issued (i.answers ++ x.toList) j ?_
    simpa [Log.instances, Log.note] using hj
  · rw [hq', ho]
    exact .of_waiting hw
  · intro y hy
    rcases List.mem_append.1 hy with hy | hy
    · exact h.released y hy
    · rw [List.mem_singleton.1 hy]
      exact hclosed

/-- Something is noted of the front work, which stays. -/
theorem Tracks.of_note (h : Tracks p b g) (hb : b'.Coherent) (hp : b'.forwardPlanner = b.forwardPlanner)
    {s' : StoreForwardWorkSlot} (hq : b.queue = s :: rest) (hq' : b'.queue = s' :: rest) {i : Instance}
    {is : List Instance} (hg : g.queued = i :: is) {w : Option PlannedWriteRequest} {x : Option Answer}
    (hi : InProgress p { i with issued := i.issued ++ w.toList, answers := i.answers ++ x.toList } s' b'.outstanding) :
    Tracks p b' (g.note w x) := by
  obtain ⟨_, hw⟩ := h.front_at hq hg
  refine ⟨hb, hp.trans h.planner, ?_, ?_, h.released⟩
  · intro j hj
    refine h.admitted_noted hg (i.issued ++ w.toList) (i.answers ++ x.toList) j ?_
    simpa [Log.instances, Log.note, hg] using hj
  · rw [hq']
    simp only [Log.note, hg, List.modifyHead_cons]
    exact ⟨hi, hw⟩

/-- The answer to the outstanding fragment goes on record. -/
theorem InProgress.answered {i : Instance} {a : StoreForwardAction} (h : InProgress p i s (some a))
    {outcome : DownstreamOutcome} {result : StoreForwardCompletion} (hx : Answer.Progress ⟨a.write, outcome, result⟩) :
    InProgress p { i with answers := i.answers ++ [⟨a.write, outcome, result⟩] } s none := by
  refine ⟨h.sent, ?_, ?_⟩
  · rw [h.issued]; simp
  · intro x hx'
    rcases List.mem_append.1 hx' with hx' | hx'
    · exact h.applied x hx'
    · rw [List.mem_singleton.1 hx']
      exact hx

/-- **Every step keeps the log.** -/
theorem Tracks.step (h : Tracks p b g) (hs : Step b c r b') : Tracks p b' (g.observe c r) := by
  have hb := hs.coherent h.coherent
  have hp := hs.planners.1
  cases hs with
  | refused hr hq => rw [Log.observe_refused hr hq]; exact h
  | @admitted mem work session ctx r q l hr hcur hbegin hok hfresh hnew hq hqueue hl hrecords =>
    have hg : g.observe ⟨mem, .admitWork work session ctx⟩ (.admission r) =
        g.enqueue (some { work, context := ctx, memory := mem }) := by
      rw [Log.observe_eq (by simp)]
      simp [admittedInstance, issuedWrite, writeAnswer, frontRelease, hr]
    rw [hg]
    have hwaiting : Waiting p { work, context := ctx, memory := mem } (work.slot ctx) := ⟨⟨.none, rfl, by simp⟩, rfl⟩
    exact h.of_enqueue hb hp ⟨h.planner ▸ hbegin, h.planner ▸ hok, hfresh⟩ hwaiting hqueue rfl
  | @skipped mem a session polls n i hf hpoll hreq =>
    rw [show g.observe ⟨mem, .admitAction a session polls n⟩ (.actionAdmission .consumed) = g by
      rw [Log.observe_eq (by simp)]; simp [admittedInstance, issuedWrite, writeAnswer, frontRelease]]
    exact h.of_same hb hp rfl rfl
  | @pollAdmitted mem a session polls n i hf hpoll hreq =>
    have hk : a.kind = .poll := by rw [hpoll.shape]
    rw [show g.observe ⟨mem, .admitAction a session polls n⟩ (.actionAdmission .admitted) = g by
      rw [Log.observe_eq (by simp)]; simp [admittedInstance, issuedWrite, writeAnswer, frontRelease, hk]]
    exact h.of_same hb hp rfl (by rw [outstanding_afterPoll hk, outstanding_idle hf])
  | @writeAdmitted mem a session polls n s rest hf hw hq =>
    have hk : a.kind = .forwardWrite := by rw [hw.shape]
    have hne : a.sequence ≠ 0 := hw.sequence ▸ nextNonZeroSequence32_ne_zero _
    obtain ⟨i, is, hg, hi, _⟩ := h.front hq
    rw [outstanding_idle hf] at hi
    have hqueue : (b.afterWrite s a).queue = s.advance a.write.quantity :: rest :=
      (FixedRingQueue.writeFront_spec h.coherent.queue hq).2
    rw [Log.observe_issued hk]
    refine h.of_note hb hp hq hqueue hg ?_
    rw [outstanding_afterWrite s hk]
    have hrec := (h.coherent.filed_cons hq).front_cons
    rw [outstanding_idle hf] at hrec
    have hok := h.slot_ok hq
    exact ⟨hi.sent.next hok hrec.1 hw.takes hne, by simp [hi.issued], by simpa using hi.applied⟩
  | @pollCompleted mem a outcome session hf ha hk =>
    rw [Log.observe_pollCompleted]
    refine h.of_same hb hp rfl ?_
    rw [outstanding_idle (b := b.landed) rfl, outstanding_of_poll ha hk]
  | @settled mem a outcome session s rest l ho hknown hcur hq hl hrecords =>
    obtain ⟨i, is, hg, hi, _⟩ := h.front hq
    have hissued := h.coherent.outstanding_front ho hq
    rw [ho] at hi
    rw [Log.observe_settled]
    cases hret : retires a.write outcome with
    | true =>
      have hqueue : (b.afterSettle a outcome l).queue = rest := by
        unfold queue
        simp only [afterSettle, hret, if_true]
        exact (h.coherent.pop_queue hq).2
      exact h.of_release hb hp hq hqueue rfl hg
        ⟨i.answers, s, a, outcome, ⟨hi.sent, hi.issued, hi.applied⟩, h.planner ▸ hissued.1, rfl, Or.inl ⟨rfl, hret⟩⟩
    | false =>
      have hqueue : (b.afterSettle a outcome l).queue = s :: rest := by
        unfold queue
        simp only [afterSettle, hret]
        exact hq
      simp only [retires, Bool.or_eq_false_iff, bne_eq_false_iff_eq] at hret
      refine h.of_note hb hp hq hqueue hg (w := none) ?_
      rw [outstanding_idle (b := b.afterSettle a outcome l) rfl]
      have hx : Answer.Progress ⟨a.write, outcome, settledResult a outcome⟩ := by
        refine ⟨rfl, hret.2, ?_, by simp [settledResult, retires, hret], hret.1⟩
        simp [settledResult, decisionFor, hret]
      simpa using hi.answered hx
  | @stale mem a outcome session s rest l ho hcur hq hl hrecords =>
    obtain ⟨i, is, hg, hi, _⟩ := h.front hq
    have hissued := h.coherent.outstanding_front ho hq
    rw [ho] at hi
    rw [Log.observe_stale]
    exact h.of_release hb hp hq (h.coherent.pop_queue hq).2 rfl hg
      ⟨i.answers, s, a, outcome, ⟨hi.sent, hi.issued, hi.applied⟩, h.planner ▸ hissued.1, rfl, Or.inr rfl⟩
  | @dropped c s rest hop hf hq =>
    obtain ⟨i, is, hg, hi, _⟩ := h.front hq
    rw [outstanding_idle hf] at hi
    rw [Log.observe_dropped]
    exact h.of_release hb hp hq (h.coherent.pop_queue hq).2 (outstanding_idle hf) hg ⟨s, by simpa using hi, rfl⟩
  | @reset c q l hop hf hq hqueue hl hrecords =>
    exact h.of_releaseAll hb hp (outstanding_idle hf) hqueue

/-- A released instance stands somewhere, and the answer that released it was to the fragment
outstanding there. -/
theorem Closed.stands {i : Instance} {how : Release} (h : Closed p i how) : ∃ before s o tail,
    InProgress p { i with answers := before } s o ∧ i.answers = before ++ tail ∧
    ∀ x ∈ tail, o.map (·.write) = some x.write := by
  cases how with
  | completed r =>
    obtain ⟨before, s, a, outcome, hp, _, hans, _⟩ := h
    refine ⟨before, s, some a, _, hp, hans, ?_⟩
    intro x hx
    rw [List.mem_singleton.1 hx]
    rfl
  | retired r =>
    obtain ⟨s, hp, _⟩ := h
    exact ⟨i.answers, s, none, [], hp, by simp, by simp⟩
  | reset =>
    obtain ⟨s, hp⟩ := h
    exact ⟨i.answers, s, none, [], hp, by simp, by simp⟩

/-- So does every instance. -/
theorem Tracks.stands (h : Tracks p b g) {i : Instance} (hi : i ∈ g.instances) : ∃ before s o tail,
    InProgress p { i with answers := before } s o ∧ i.answers = before ++ tail ∧
    ∀ x ∈ tail, o.map (·.write) = some x.write := by
  rcases List.mem_append.1 hi with hi | hi
  · obtain ⟨x, hx, rfl⟩ := List.mem_map.1 hi
    exact (h.released x hx).stands
  · obtain ⟨s, _, o, hp, _⟩ := h.queued.inProgress hi
    exact ⟨i.answers, s, o, [], hp, by simp, by simp⟩

/-- **The log of every run.** -/
theorem log_tracks (hb : b.Deployed) (calls : List Call) : Tracks b.forwardPlanner (b.run calls) (b.log calls) := by
  have hinit : Tracks b.forwardPlanner b {} := by
    have h := hb.coherent
    refine ⟨h, rfl, by simp [Log.instances], ?_, by simp⟩
    obtain ⟨_, _, _, _, _, _, rfl⟩ := hb.constructed
    trivial
  exact Machine.simulates_final exec (fun _ _ c h => h.step (exec_step h.coherent c)) hinit calls

end ModbusRTUBridge
