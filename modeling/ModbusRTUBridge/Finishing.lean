import ModbusRTUBridge.LogTrace
import ModbusRTUBridge.Notices
/-!
# A queued work can be finished

Whatever happened before, calls made in a session the work is current in can finish it: the
works before it are finished or dropped, its outstanding fragment is completed, the rest of its
fragments are issued and completed (`Tracks.finishes`). Nothing is ever stuck.
-/

namespace ModbusRTUBridge

/-- The session a call is made in. -/
def Op.session : Op → Option SessionStateView
  | .admitWork _ session _ => some session
  | .nextAction session _ _ _ _ => some session
  | .admitAction _ session _ _ => some session
  | .complete _ _ session => some session
  | .discardOneStaleWork session => some session
  | .abandonFront => none
  | .reset => none

/-- The answer puts the fragment into the applied image. -/
structure Answer.Marks (x : Answer) : Prop where
  current : x.result.decision.current = true
  identity : x.result.decision.identity = x.write.identity
  action : x.result.decision.appliedAction = .markAppliedRange

/-- Instance `i` is what has become of `i₀`, and what was answered since put its fragments into
the applied image. -/
structure Since (i₀ i : Instance) : Prop where
  origin : i.origin = i₀.origin
  issued : i₀.issued <+: i.issued
  answers : ∃ fresh, i.answers = i₀.answers ++ fresh ∧ ∀ x ∈ fresh, x.Marks

/-- It ended well: every fragment was issued, answered and applied, and a tracked work was told. -/
structure Finished (i₀ i : Instance) (r : StoreForwardCompletion) : Prop where
  since : Since i₀ i
  status : r.status = .completed
  answered : i.answers.map (·.write) = i.issued
  allApplied : i.AllApplied
  notices : i.notices = if i.work.delivery = .tracked then [.workSucceeded] else []

section
variable {i₀ i : Instance} {x : Answer} {w : PlannedWriteRequest}

theorem Since.refl (i : Instance) : Since i i := ⟨rfl, List.prefix_refl _, [], (List.append_nil _).symm, by simp⟩

theorem Since.issue (h : Since i₀ i) (w : PlannedWriteRequest) : Since i₀ { i with issued := i.issued ++ [w] } :=
  ⟨h.origin, h.issued.trans (List.prefix_append _ _), h.answers⟩

theorem Since.answer (h : Since i₀ i) (hx : x.Marks) : Since i₀ { i with answers := i.answers ++ [x] } := by
  obtain ⟨fresh, hans, hmarks⟩ := h.answers
  refine ⟨h.origin, h.issued, fresh ++ [x], ?_, ?_⟩
  · rw [hans, List.append_assoc]
  · intro y hy
    rcases List.mem_append.1 hy with hy | hy
    · exact hmarks y hy
    · rw [List.mem_singleton.1 hy]
      exact hx

/-- An applied fragment marks its range. -/
theorem marks_settled (a : StoreForwardAction) :
    Answer.Marks ⟨a.write, .applied, StoreForwardBridge.settledResult a .applied⟩ := by
  constructor <;> simp [StoreForwardBridge.settledResult, decisionFor, CompletionDecision.current]

end

open StoreForwardBridge

section
variable {p : ForwardPlanner} {i₀ i : Instance} {s : StoreForwardWorkSlot} {a : StoreForwardAction}

/-- The final fragment of an instance was applied. -/
theorem InProgress.finished (h : InProgress p i s (some a)) (ha : s.Issued p a) (hi : i.Admitted p)
    (hfin : a.write.finalFragment = true) (hsince : Since i₀ i) :
    Finished i₀ { i with answers := i.answers ++ [⟨a.write, .applied, settledResult a .applied⟩] }
      (settledResult a .applied) := by
  have hret : retires a.write .applied = true := by simp [retires, hfin]
  have hnotice := decisionFor_notice hret
  have hdelivery : a.write.delivery = i.work.delivery := h.delivery_eq ha
  rw [hdelivery] at hnotice
  refine ⟨hsince.answer (marks_settled a), rfl, ?_, ?_, ?_⟩
  · rw [h.issued]
    simp
  · have hadmitted : Instance.Admitted p
        { i with answers := i.answers ++ [⟨a.write, .applied, settledResult a .applied⟩] } := ⟨hi.ready, hi.ok, hi.fresh⟩
    exact (InProgress.allApplied_iff (i := { i with answers := i.answers ++ [⟨a.write, .applied, settledResult a .applied⟩] })
      h ha hadmitted rfl hret rfl).2 rfl
  · have hbefore : i.answers.filterMap Answer.notice = [] := h.notices_nil
    rw [Instance.notices, List.filterMap_append, hbefore]
    by_cases htracked : i.work.delivery = .tracked
    · simp [Answer.notice, settledResult, hnotice, tracksPublicCompletion, htracked]
    · simp [Answer.notice, settledResult, hnotice, tracksPublicCompletion, htracked]

end

namespace StoreForwardBridge

theorem previewWrite_status (mem : Memory) (b : StoreForwardBridge) (front : StoreForwardWorkSlot)
    (action : StoreForwardAction) (ctx : Ptr) : (b.previewWrite mem front action ctx).status = .ready ∨
      (b.previewWrite mem front action ctx).status = .planningFailed := by
  unfold previewWrite
  split
  · simp only
    split
    · exact Or.inr rfl
    · exact Or.inl rfl
  · simp only
    split
    · exact Or.inr rfl
    · exact Or.inl rfl
  · exact Or.inr rfl

/-- With no polls to make, the facade proposes the front's next fragment. -/
theorem Coherent.proposes_front {b : StoreForwardBridge} {s : StoreForwardWorkSlot} {rest : List StoreForwardWorkSlot}
    {session : SessionStateView} (h : b.Coherent) (mem : Memory) (hf : b.inFlight = false) (hq : b.queue = s :: rest)
    (hcur : workCurrent s.workIdentity session = true) :
    ∃ a, Proposes mem b session none 0 a ∧
      WriteProposal mem b session a.selectedAt none 0 a.downstream.consistencyContext s a ∧
      (b.previewAction mem session a.selectedAt none 0 a.downstream.consistencyContext).movedFront s =
        s.advance a.write.quantity := by
  have hhead : b.queue.head? = some s := by rw [hq]; rfl
  rcases previewAction_cases h mem session 0 none 0 .null with ⟨hbad, hbad'⟩ | ⟨_, _, i, hpoll⟩ | ⟨hready, _, front, hw, hmoved⟩
  · have hstore : (0 : UInt16) = 0 ∨ (none : Storage PollCandidate).isNone = false := Or.inl rfl
    have hselect : b.pollPlanner.select 0 true none 0 b.pollState = (.selected, PollPlanner.forwardSelection 0) := by
      rcases PollPlanner.select_spec b.pollPlanner 0 b.pollState hstore true with ⟨i, hfirst, _⟩ | ⟨_, heq⟩
      · exact absurd hfirst.lt (Nat.not_lt_zero _)
      · exact heq
    have hpreview : b.previewAction mem session 0 none 0 .null = b.previewWrite mem s
        { kind := .forwardWrite, proposalRevision := b.revision, scheduling := PollPlanner.forwardSelection 0 } .null := by
      simp [previewAction, h.validStorage, hf, h.front_eq, hhead, hcur, hselect, PollSelection.fromCandidateSet]
    rw [hpreview] at hbad hbad'
    exact absurd ((previewWrite_status _ _ _ _ _).resolve_left hbad) hbad'
  · exact absurd hpoll.lt (Nat.not_lt_zero _)
  · obtain rfl : front = s := by
      have hfront := hw.head
      rw [hhead] at hfront
      exact (Option.some.inj hfront).symm
    obtain ⟨a, ha⟩ : ∃ a, (b.previewAction mem session 0 none 0 .null).action = a := ⟨_, rfl⟩
    rw [ha] at hw hmoved
    have hat : a.selectedAt = 0 := by rw [hw.shape]
    have hctx : a.downstream.consistencyContext = .null := by rw [hw.shape]; rfl
    refine ⟨a, proposes_iff.2 ?_, ?_, ?_⟩
    · rw [hat, hctx]
      exact ⟨hready, ha⟩
    · rw [hat, hctx]
      exact hw
    · rw [hat, hctx]
      exact hmoved

end StoreForwardBridge

/-! ## Calls made in one session -/

/-- Some calls, made in `session` with their snapshots in `mem`, lead there. -/
abbrev LeadsIn (mem : Memory) (session : SessionStateView) :=
  Machine.Leads exec (fun c => c.memory = mem ∧ c.op.session = some session) Log.observe

section
variable {p : ForwardPlanner} {b b' : StoreForwardBridge} {g g' : Log} (mem : Memory) {session : SessionStateView}
  {s : StoreForwardWorkSlot} {rest : List StoreForwardWorkSlot} {i i₀ : Instance} {is : List Instance}
  {a : StoreForwardAction}

theorem Tracks.call (h : Tracks p b g) {op : Op} {r : Res} (hs : op.session = some session)
    (hexec : b.exec ⟨mem, op⟩ = (r, b')) (hg : g.observe ⟨mem, op⟩ r = g') :
    LeadsIn mem session b g b' g' ∧ Tracks p b' g' := by
  have hlead : LeadsIn mem session b g (b.exec ⟨mem, op⟩).2 (g.observe ⟨mem, op⟩ (b.exec ⟨mem, op⟩).1) :=
    Machine.Leads.input ⟨rfl, hs⟩
  have htracks := h.step (exec_step h.coherent ⟨mem, op⟩)
  rw [hexec, hg] at hlead htracks
  exact ⟨hlead, htracks⟩

/-- The work in front is the one the log has there. -/
theorem Tracks.front_identity (h : Tracks p b g) (hq : b.queue = s :: rest) (hg : g.queued = i :: is) :
    s.workIdentity = i.work.identity := by
  obtain ⟨hi, _⟩ := h.front_at hq hg
  exact hi.sent.sameWork.identity.trans (Ingress.slot_workIdentity _ _)

/-- Nothing is in flight; queue and log are these. -/
structure Idles (p : ForwardPlanner) (b : StoreForwardBridge) (g : Log) (queue : List StoreForwardWorkSlot)
    (queued : List Instance) : Prop where
  tracks : Tracks p b g
  idle : b.inFlight = false
  queue : b.queue = queue
  queued : g.queued = queued

/-- A fragment of the front work is outstanding. -/
structure Awaits (p : ForwardPlanner) (b : StoreForwardBridge) (g : Log) (a : StoreForwardAction)
    (queue : List StoreForwardWorkSlot) (queued : List Instance) : Prop where
  tracks : Tracks p b g
  outstanding : b.outstanding = some a
  queue : b.queue = queue
  queued : g.queued = queued

variable (session) in
/-- A poll in flight is completed. -/
theorem Tracks.land (h : Tracks p b g) (hf : b.inFlight = true) (hk : b.inFlightAction.kind = .poll) :
    ∃ b', LeadsIn mem session b g b' g ∧ Idles p b' g b.queue g.queued := by
  have hexec : b.exec ⟨mem, .complete b.inFlightAction .applied session⟩ =
      (.completion ⟨.completed, .poll, .applied, {}, {}, false, b.inFlightAction.workContext⟩, b.landed) := by
    have hknown : isKnownDownstreamOutcome .applied = true := rfl
    simp only [exec, complete_poll hf rfl hk hknown]
  obtain ⟨hlead, htracks⟩ := h.call mem rfl hexec Log.observe_pollCompleted
  exact ⟨b.landed, hlead, htracks, rfl, rfl, rfl⟩

/-- The front's next fragment is issued. -/
theorem Idles.issue (h : Idles p b g (s :: rest) (i :: is)) (hcur : workCurrent s.workIdentity session = true) :
    ∃ a b' g', LeadsIn mem session b g b' g' ∧
      Awaits p b' g' a (s.advance a.write.quantity :: rest) ({ i with issued := i.issued ++ [a.write] } :: is) ∧
      0 < a.write.quantity.toNat ∧ a.write.quantity.toNat ≤ s.remaining.toNat := by
  have hb := h.tracks.coherent
  obtain ⟨a, hproposes, hw, hmoved⟩ := hb.proposes_front mem h.idle h.queue hcur
  have hexec : b.exec ⟨mem, .admitAction a session none 0⟩ = (.actionAdmission .admitted, b.afterWrite s a) := by
    simp only [exec, admitAction_write hb h.idle hproposes hw hmoved]
  have hk : a.kind = .forwardWrite := by rw [hw.shape]
  obtain ⟨hlead, htracks⟩ := h.tracks.call mem rfl hexec (Log.observe_issued hk)
  refine ⟨a, b.afterWrite s a, _, hlead, ⟨htracks, outstanding_afterWrite s hk, ?_, ?_⟩, hw.takes.pos, hw.takes.le_remaining⟩
  · exact (FixedRingQueue.writeFront_spec hb.queue h.queue).2
  · simp [Log.note, h.queued]

/-- The outstanding fragment and its work. -/
theorem Awaits.issued (h : Awaits p b g a (s :: rest) (i :: is)) :
    s.Issued p a ∧ InProgress p i s (some a) ∧ i.Admitted p := by
  obtain ⟨hissued, _, _⟩ := h.tracks.coherent.outstanding_front h.outstanding h.queue
  obtain ⟨hi, _⟩ := h.tracks.front_at h.queue h.queued
  rw [h.outstanding] at hi
  exact ⟨h.tracks.planner ▸ hissued, hi, h.tracks.admitted_front h.queued⟩

/-- The outstanding fragment is completed as applied. -/
theorem Awaits.complete (h : Awaits p b g a (s :: rest) (i :: is)) (hcur : workCurrent s.workIdentity session = true) :
    ∃ b' g', LeadsIn mem session b g b' g' ∧
      ((a.write.finalFragment = true ∧ Idles p b' g' rest is ∧
          ({ i with answers := i.answers ++ [⟨a.write, .applied, settledResult a .applied⟩] },
            .completed (settledResult a .applied)) ∈ g'.released) ∨
        (a.write.finalFragment = false ∧ Idles p b' g' (s :: rest)
          ({ i with answers := i.answers ++ [⟨a.write, .applied, settledResult a .applied⟩] } :: is))) := by
  have hb := h.tracks.coherent
  have hknown : isKnownDownstreamOutcome .applied = true := rfl
  rw [← h.issued.1.work_eq] at hcur
  obtain ⟨l, heq, _, _⟩ := complete_settles hb h.outstanding hknown hcur h.queue
  have hexec : b.exec ⟨mem, .complete a .applied session⟩ =
      (.completion (settledResult a .applied), b.afterSettle a .applied l) := by
    simp only [exec, heq]
    rfl
  have hret : retires a.write .applied = a.write.finalFragment := by simp [retires]
  obtain ⟨hlead, htracks⟩ := h.tracks.call mem rfl hexec Log.observe_settled
  refine ⟨_, _, hlead, ?_⟩
  cases hfin : a.write.finalFragment with
  | true =>
    have hqueue : (b.afterSettle a .applied l).queue = rest := by
      simp only [StoreForwardBridge.queue, afterSettle, hret, hfin, if_true]
      exact (hb.pop_queue h.queue).2
    refine Or.inl ⟨rfl, ⟨htracks, rfl, hqueue, ?_⟩, ?_⟩
    · simp [Log.note, Log.release, h.queued, hret, hfin]
    · simp [Log.note, Log.release, h.queued, hret, hfin]
  | false =>
    have hqueue : (b.afterSettle a .applied l).queue = s :: rest := by
      simp only [StoreForwardBridge.queue, afterSettle, hret, hfin]
      exact h.queue
    refine Or.inr ⟨rfl, ⟨htracks, rfl, hqueue, ?_⟩⟩
    simp [Log.note, Log.release, h.queued, hret, hfin]

/-- The front work of another session is dropped. -/
theorem Idles.drop (h : Idles p b g (s :: rest) (i :: is)) (hcur : workCurrent s.workIdentity session = false) :
    ∃ b' g', LeadsIn mem session b g b' g' ∧ Idles p b' g' rest is := by
  have hb := h.tracks.coherent
  have hexec : b.exec ⟨mem, .discardOneStaleWork session⟩ = (.retirement .retired (retirementOf s), b.afterRetire s) := by
    simp only [exec, discardOneStaleWork_stale hb h.idle h.queue hcur]
  obtain ⟨hlead, htracks⟩ := h.tracks.call mem rfl hexec Log.observe_dropped
  refine ⟨b.afterRetire s, _, hlead, htracks, h.idle, (hb.pop_queue h.queue).2, ?_⟩
  simp [Log.release, h.queued]

/-- So is one with a fragment outstanding, when that is completed. -/
theorem Awaits.drop (h : Awaits p b g a (s :: rest) (i :: is)) (hcur : workCurrent s.workIdentity session = false) :
    ∃ b' g', LeadsIn mem session b g b' g' ∧ Idles p b' g' rest is := by
  have hb := h.tracks.coherent
  have hknown : isKnownDownstreamOutcome .applied = true := rfl
  rw [← h.issued.1.work_eq] at hcur
  obtain ⟨l, heq, _, _⟩ := complete_stale hb h.outstanding hknown hcur h.queue
  have hexec : b.exec ⟨mem, .complete a .applied session⟩ = (.completion (staleResult a .applied), b.afterStale l) := by
    simp only [exec, heq]
    rfl
  obtain ⟨hlead, htracks⟩ := h.tracks.call mem rfl hexec Log.observe_stale
  refine ⟨b.afterStale l, _, hlead, htracks, rfl, (hb.pop_queue h.queue).2, ?_⟩
  simp [Log.note, Log.release, h.queued]

/-! ## The whole work -/

/-- The front work after one of its fragments was applied: finished, or one turn further. -/
theorem Awaits.turn (h : Awaits p b g a (s :: rest) (i :: is)) (hcur : workCurrent s.workIdentity session = true)
    (hsince : Since i₀ i) :
    ∃ b' g', LeadsIn mem session b g b' g' ∧
      ((∃ i' r, Idles p b' g' rest is ∧ (i', .completed r) ∈ g'.released ∧ Finished i₀ i' r) ∨
        (∃ i', Idles p b' g' (s :: rest) (i' :: is) ∧ Since i₀ i')) := by
  obtain ⟨b', g', hlead, ⟨hfin, hidles, hmem⟩ | ⟨_, hidles⟩⟩ := h.complete mem hcur
  · obtain ⟨hissued, hprogress, hadmitted⟩ := h.issued
    exact ⟨b', g', hlead, Or.inl ⟨_, _, hidles, hmem, hprogress.finished hissued hadmitted hfin hsince⟩⟩
  · exact ⟨b', g', hlead, Or.inr ⟨_, hidles, hsince.answer (marks_settled a)⟩⟩

/-- An idle front work is finished: each turn issues a fragment and completes it. -/
theorem Idles.finish (n : Nat) (h : Idles p b g (s :: rest) (i :: is))
    (hcur : workCurrent s.workIdentity session = true) (hsince : Since i₀ i) (hn : s.remaining.toNat ≤ n) :
    ∃ b' g' i' r, LeadsIn mem session b g b' g' ∧ Idles p b' g' rest is ∧ (i', .completed r) ∈ g'.released ∧
      Finished i₀ i' r := by
  induction n generalizing b g s i with
  | zero =>
    obtain ⟨a, _, _, _, _, hpos, hle⟩ := h.issue mem hcur
    omega
  | succ n ih =>
    obtain ⟨a, b₁, g₁, hlead₁, hawaits, hpos, hle⟩ := h.issue mem hcur
    obtain ⟨b₂, g₂, hlead₂, ⟨i', r, hidles, hmem, hfinished⟩ | ⟨i', hidles, hsince'⟩⟩ :=
      hawaits.turn mem hcur (hsince.issue a.write)
    · exact ⟨b₂, g₂, i', r, hlead₁.trans hlead₂, hidles, hmem, hfinished⟩
    · have hless : (s.advance a.write.quantity).remaining.toNat ≤ n := by
        have hsub : (s.remaining - a.write.quantity).toNat = s.remaining.toNat - a.write.quantity.toNat :=
          toNat_sub_of_le hle
        show (s.remaining - a.write.quantity).toNat ≤ n
        omega
      obtain ⟨b₃, g₃, i'', r, hlead₃, hidles₃, hmem, hfinished⟩ := ih hidles hcur hsince' hless
      exact ⟨b₃, g₃, i'', r, (hlead₁.trans hlead₂).trans hlead₃, hidles₃, hmem, hfinished⟩

/-- So is one with a fragment outstanding. -/
theorem Awaits.finish (h : Awaits p b g a (s :: rest) (i :: is)) (hcur : workCurrent s.workIdentity session = true)
    (hsince : Since i₀ i) :
    ∃ b' g' i' r, LeadsIn mem session b g b' g' ∧ Idles p b' g' rest is ∧ (i', .completed r) ∈ g'.released ∧
      Finished i₀ i' r := by
  obtain ⟨b₁, g₁, hlead₁, ⟨i', r, hidles, hmem, hfinished⟩ | ⟨i', hidles, hsince'⟩⟩ := h.turn mem hcur hsince
  · exact ⟨b₁, g₁, i', r, hlead₁, hidles, hmem, hfinished⟩
  · obtain ⟨b₂, g₂, i'', r, hlead₂, hidles₂, hmem, hfinished⟩ := hidles.finish mem _ hcur hsince' (Nat.le_refl _)
    exact ⟨b₂, g₂, i'', r, hlead₁.trans hlead₂, hidles₂, hmem, hfinished⟩

variable (session) in
/-- The front work leaves the queue one way or the other. -/
theorem Idles.clear (h : Idles p b g (s :: rest) (i :: is)) :
    ∃ b' g', LeadsIn mem session b g b' g' ∧ Idles p b' g' rest is := by
  cases hcur : workCurrent s.workIdentity session with
  | true =>
    obtain ⟨b', g', _, _, hlead, hidles, _⟩ := h.finish mem _ hcur (Since.refl i) (Nat.le_refl _)
    exact ⟨b', g', hlead, hidles⟩
  | false => exact h.drop mem hcur

variable (session) in
theorem Awaits.clear (h : Awaits p b g a (s :: rest) (i :: is)) :
    ∃ b' g', LeadsIn mem session b g b' g' ∧ Idles p b' g' rest is := by
  cases hcur : workCurrent s.workIdentity session with
  | true =>
    obtain ⟨b', g', _, _, hlead, hidles, _⟩ := h.finish mem hcur (Since.refl i)
    exact ⟨b', g', hlead, hidles⟩
  | false => exact h.drop mem hcur

/-- Clearing the queue up to an instance, and finishing that. -/
theorem Idles.reach (pre : List Instance) {post : List Instance} {slots : List StoreForwardWorkSlot}
    (h : Idles p b g slots (pre ++ i :: post)) (hcur : workCurrent i.work.identity session = true) :
    ∃ b' g' i' r, LeadsIn mem session b g b' g' ∧ (i', .completed r) ∈ g'.released ∧ Finished i i' r := by
  have hlen := h.tracks.queued.length_eq
  rw [h.queued, h.queue] at hlen
  induction pre generalizing b g slots with
  | nil =>
    cases slots with
    | nil => simp at hlen
    | cons s rest =>
      have hs := h.tracks.front_identity h.queue h.queued
      rw [← hs] at hcur
      obtain ⟨b', g', i', r, hlead, _, hmem, hfinished⟩ := h.finish mem _ hcur (Since.refl i) (Nat.le_refl _)
      exact ⟨b', g', i', r, hlead, hmem, hfinished⟩
  | cons j pre ih =>
    cases slots with
    | nil => simp at hlen
    | cons s rest =>
      obtain ⟨b₁, g₁, hlead₁, hidles⟩ := h.clear mem session
      obtain ⟨b', g', i', r, hlead₂, hmem, hfinished⟩ := ih hidles (by simpa using hlen)
      exact ⟨b', g', i', r, hlead₁.trans hlead₂, hmem, hfinished⟩

/-- **Nothing queued is stuck.** Calls in a session the work of a queued instance is current in can
finish it, from any state of the facade. -/
theorem Tracks.finishes (h : Tracks p b g) (hi : i ∈ g.queued) (hcur : workCurrent i.work.identity session = true) :
    ∃ b' g' i' r, LeadsIn mem session b g b' g' ∧ (i', .completed r) ∈ g'.released ∧ Finished i i' r := by
  obtain ⟨pre, post, hqueued⟩ := List.append_of_mem hi
  cases hf : b.inFlight with
  | false => exact Idles.reach mem pre ⟨h, hf, rfl, hqueued⟩ hcur
  | true =>
    rcases h.coherent.kinds hf with hk | hk
    · -- a write: it is the front's
      obtain ⟨s, rest, hq, _⟩ := h.coherent.front_of_outstanding (outstanding_eq_some.2 ⟨hf, rfl, hk⟩)
      have ho : b.outstanding = some b.inFlightAction := outstanding_eq_some.2 ⟨hf, rfl, hk⟩
      cases pre with
      | nil =>
        have hawaits : Awaits p b g b.inFlightAction (s :: rest) (i :: post) := ⟨h, ho, hq, hqueued⟩
        rw [← h.front_identity hq hqueued] at hcur
        obtain ⟨b', g', i', r, hlead, _, hmem, hfinished⟩ := hawaits.finish mem hcur (Since.refl i)
        exact ⟨b', g', i', r, hlead, hmem, hfinished⟩
      | cons j pre =>
        have hawaits : Awaits p b g b.inFlightAction (s :: rest) (j :: (pre ++ i :: post)) := ⟨h, ho, hq, hqueued⟩
        obtain ⟨b₁, g₁, hlead₁, hidles⟩ := hawaits.clear mem session
        obtain ⟨b', g', i', r, hlead₂, hmem, hfinished⟩ := Idles.reach mem pre hidles hcur
        exact ⟨b', g', i', r, hlead₁.trans hlead₂, hmem, hfinished⟩
    · obtain ⟨b₁, hlead₁, hidles⟩ := h.land mem session hf hk
      rw [hqueued] at hidles
      obtain ⟨b', g', i', r, hlead₂, hmem, hfinished⟩ := Idles.reach mem pre hidles hcur
      exact ⟨b', g', i', r, hlead₁.trans hlead₂, hmem, hfinished⟩

end

end ModbusRTUBridge
