import ModbusRTUBridge.Finishing
/-!
# What the stale test costs

`workCurrent` is one boolean about four fields of the session. `discardOneStaleWork` and the
`StaleSession` branch of `complete` retire a work when it is false, on the ground that an old
generation can never become current again (`StoreForwardBridge.h:598-599`); but it is also false in a
session of the work's own generation that is not ready yet, or for the moment. In a run where no
such decision is asked for, a work of the current generation is kept through everything and can
still be finished (`stale_retirement_iff`).
-/

namespace ModbusRTUBridge

/-- Active, applied and `Ready`, whatever the generation. -/
def SessionStateView.ready (session : SessionStateView) : Bool :=
  session.active && session.currentGeneration == session.appliedGeneration && session.phase == .ready

section
variable {w : WorkIdentity} {session : SessionStateView}

theorem workCurrent_iff : workCurrent w session = true ↔
    w.valid = true ∧ session.currentGeneration = w.sessionGeneration ∧ session.ready = true := by
  simp only [workCurrent, SessionStateView.ready, Bool.and_eq_true, beq_iff_eq]
  constructor
  · rintro ⟨⟨⟨⟨hvalid, hactive⟩, hgen⟩, happlied⟩, hphase⟩
    exact ⟨hvalid, hgen.symm, ⟨hactive, happlied⟩, hphase⟩
  · rintro ⟨hvalid, hgen, ⟨hactive, happlied⟩, hphase⟩
    exact ⟨⟨⟨⟨hvalid, hactive⟩, hgen.symm⟩, happlied⟩, hphase⟩

theorem workCurrent_unready (h : session.ready = false) (w : WorkIdentity) : workCurrent w session = false := by
  rw [← Bool.not_eq_true]
  intro hcur
  rw [(workCurrent_iff.1 hcur).2.2] at h
  cases h

end

namespace StoreForwardBridge

/-- A queued work, its record and its outstanding action are as they were. -/
structure Keeps (b b' : StoreForwardBridge) (s : StoreForwardWorkSlot) : Prop where
  queued : s ∈ b'.queue
  record : b'.records s.workIdentity = b.records s.workIdentity
  action : ∀ a, b.outstanding = some a → a.write.identity.work = s.workIdentity → b'.outstanding = some a

/-- A call retires no work of its session's generation as stale, and does nothing to such a work
while the session is not ready. -/
structure Spares (b : StoreForwardBridge) (c : Call) : Prop where
  discarded : ∀ session, c.op = .discardOneStaleWork session → ∀ r, (b.exec c).1 = .retirement .retired r →
    session.currentGeneration ≠ r.work.sessionGeneration
  stale : ∀ a outcome session, c.op = .complete a outcome session → ∀ r, (b.exec c).1 = .completion r →
    r.status = .staleSession → session.currentGeneration ≠ a.write.identity.work.sessionGeneration
  kept : ∀ session, c.op.session = some session → ∀ s ∈ b.queue,
    session.currentGeneration = s.workIdentity.sessionGeneration → session.ready = false → Keeps b (b.exec c).2 s

/-- A call that decides about a work of its session's generation finds the session ready. -/
def NotLagging (b : StoreForwardBridge) : Op → Prop
  | .discardOneStaleWork session => b.inFlight = false → ∀ s ∈ b.queue.head?,
    session.currentGeneration = s.workIdentity.sessionGeneration → session.ready = true
  | .complete a outcome session => b.outstanding = some a → isKnownDownstreamOutcome outcome = true →
    session.currentGeneration = a.write.identity.work.sessionGeneration → session.ready = true
  | _ => True

variable {b : StoreForwardBridge} {c : Call} {session : SessionStateView} {s : StoreForwardWorkSlot}
  {a : StoreForwardAction} {outcome : DownstreamOutcome}

theorem known_of_stale (h : (b.complete a outcome session).1.status = .staleSession) :
    isKnownDownstreamOutcome outcome = true := by
  refine Classical.byContradiction fun hunknown => ?_
  obtain ⟨hstatus, _⟩ := complete_refused (b := b) (a := a) session fun hbad => hunknown hbad.2.2
  rw [h] at hstatus
  rcases hstatus with hbad | hbad | hbad <;> cases hbad

/-- The identity of a queued work is valid. -/
theorem Coherent.valid_queued (h : b.Coherent) (hs : s ∈ b.queue) : s.workIdentity.valid = true :=
  (h.filed.slots s hs).identity

/-- A work that goes from the front leaves the others as they were. -/
theorem keeps_popped {b' : StoreForwardBridge} {f : StoreForwardWorkSlot} {rest : List StoreForwardWorkSlot}
    (hq : b.queue = f :: rest) (hqueue : b'.queue = rest) (hrecords : b'.records = b.records.file f.workIdentity none)
    (hs : s ∈ b.queue) (hne : s.workIdentity ≠ f.workIdentity)
    (hother : ∀ a, b.outstanding = some a → a.write.identity.work = f.workIdentity) : Keeps b b' s := by
  refine ⟨?_, ?_, ?_⟩
  · rw [hqueue]
    rw [hq] at hs
    rcases List.mem_cons.1 hs with rfl | hs
    · exact absurd rfl hne
    · exact hs
  · rw [hrecords]
    exact Records.file_ne hne
  · intro a ho hwork
    exact absurd (hwork.symm.trans (hother a ho)) hne

/-- **A session that lags behind is waited for.** -/
theorem keeps_of_notLagging (h : b.Coherent) (hc : NotLagging b c.op) (hsession : c.op.session = some session)
    (hs : s ∈ b.queue) (hgen : session.currentGeneration = s.workIdentity.sessionGeneration)
    (hready : session.ready = false) : Keeps b (b.exec c).2 s := by
  have hnever : ∀ w, workCurrent w session ≠ true := fun w => by rw [workCurrent_unready hready]; decide
  have hhead : ∃ f ∈ b.queue.head?, True := by
    cases hq : b.queue with
    | nil => rw [hq] at hs; cases hs
    | cons f rest => exact ⟨f, rfl, trivial⟩
  have hstep := exec_step h c
  obtain ⟨r, b', hexec⟩ : ∃ r b', b.exec c = (r, b') := ⟨_, _, rfl⟩
  rw [hexec] at hstep ⊢
  show Keeps b b' s
  cases hstep with
  | refused => exact ⟨hs, rfl, fun _ ho _ => ho⟩
  | admitted hr hcur => cases hsession; exact absurd hcur (hnever _)
  | skipped hf hp =>
    cases hsession
    obtain ⟨f, hf, _⟩ := hhead
    exact absurd (hp.current f hf) (hnever _)
  | pollAdmitted hf hp =>
    cases hsession
    obtain ⟨f, hf, _⟩ := hhead
    exact absurd (hp.current f hf) (hnever _)
  | writeAdmitted hf hw => cases hsession; exact absurd hw.current (hnever _)
  | pollCompleted hf ha hk =>
    refine ⟨hs, rfl, ?_⟩
    intro a' ho
    rw [outstanding_of_poll ha hk] at ho
    cases ho
  | settled ho hknown hcur => cases hsession; exact absurd hcur (hnever _)
  | @stale mem a outcome _ f rest l ho hcur hq hl hrecords =>
    cases hsession
    have hstatus : (b.complete a outcome session).1.status = .staleSession := by
      have hfst := congrArg Prod.fst hexec
      simp only [exec, Res.completion.injEq] at hfst
      rw [hfst]
      rfl
    have hwork : a.write.identity.work = f.workIdentity := (h.outstanding_front ho hq).1.work_eq
    refine keeps_popped hq (h.pop_queue hq).2 hrecords hs ?_ ?_
    · intro heq
      have hbad := hc ho (known_of_stale hstatus) (by rw [hwork, ← heq]; exact hgen)
      rw [hready] at hbad
      cases hbad
    · intro a' ho'
      rw [ho] at ho'
      cases ho'
      exact hwork
  | @dropped _ f rest hop hf hq =>
    rcases hop with hop | ⟨session', hop, hcur⟩
    · rw [hop] at hsession
      cases hsession
    · rw [hop] at hsession hc
      cases hsession
      obtain ⟨_, _, hlook⟩ := CompletionLedger.abandon_spec h.ledger (h.record_of_idle hf hq)
      refine keeps_popped hq (h.pop_queue hq).2 (funext hlook) hs ?_ ?_
      · intro heq
        have hbad := hc hf f (by rw [hq]; rfl) (by rw [← heq]; exact hgen)
        rw [hready] at hbad
        cases hbad
      · intro a' ho
        rw [outstanding_idle hf] at ho
        cases ho
  | reset hop =>
    rw [hop] at hsession
    cases hsession

/-- A call that does not lag behind. -/
theorem spares_of_notLagging (h : b.Coherent) (hc : NotLagging b c.op) : Spares b c := by
  obtain ⟨mem, op⟩ := c
  refine ⟨?_, ?_, ?_⟩
  · rintro session rfl r hr hgen
    simp only [exec, Res.retirement.injEq] at hr
    obtain ⟨hstatus, rfl⟩ := hr
    rcases discardOneStaleWork_cases h session with ⟨hbad, _⟩ | ⟨hf, s, rest, hq, hcur, heq⟩
    · exact hbad hstatus
    · rw [heq] at hgen
      have hready := hc hf s (by rw [hq]; rfl) hgen
      have hvalid := h.valid_queued (s := s) (by rw [hq]; exact List.mem_cons_self)
      rw [workCurrent_iff.2 ⟨hvalid, hgen, hready⟩] at hcur
      cases hcur
  · rintro a outcome session rfl r hr hstatus hgen
    simp only [exec, Res.completion.injEq] at hr
    subst hr
    have hknown := known_of_stale hstatus
    rcases complete_cases h a outcome session with hno | ⟨_, _, _, ⟨_, heq⟩ | ⟨_, _, _, _, _, _, heq, _⟩ |
      ⟨s, rest, l, ho, hq, hcur, _⟩⟩
    · obtain ⟨hrefused, _⟩ := complete_refused session hno
      rw [hstatus] at hrefused
      rcases hrefused with hbad | hbad | hbad <;> cases hbad
    · rw [heq] at hstatus
      cases hstatus
    · rw [heq] at hstatus
      cases hstatus
    · obtain ⟨s', rest', hq', hi, _⟩ := h.front_of_outstanding ho
      have hvalid := h.valid_queued (s := s') (by rw [hq']; exact List.mem_cons_self)
      rw [← hi.work_eq] at hvalid
      rw [workCurrent_iff.2 ⟨hvalid, hgen, hc ho hknown hgen⟩] at hcur
      cases hcur
  · exact fun session hsession s hs hgen hready => keeps_of_notLagging h hc hsession hs hgen hready

/-- And one that does retires a work of its own generation. -/
theorem notLagging_of_spares (h : b.Coherent) (hs : Spares b c) : NotLagging b c.op := by
  obtain ⟨mem, op⟩ := c
  cases op with
  | discardOneStaleWork session =>
    intro hf s hhead hgen
    refine Classical.byContradiction fun hunready => ?_
    have hcur := workCurrent_unready (Bool.eq_false_iff.2 hunready) s.workIdentity
    obtain ⟨rest, hq⟩ := List.head?_eq_some_iff.1 hhead
    exact hs.discarded session rfl (retirementOf s)
      (by simp only [exec, discardOneStaleWork_stale h hf hq hcur]) hgen
  | complete a outcome session =>
    intro ho hknown hgen
    refine Classical.byContradiction fun hunready => ?_
    have hcur := workCurrent_unready (Bool.eq_false_iff.2 hunready) a.write.identity.work
    obtain ⟨s, rest, hq, _⟩ := h.front_of_outstanding ho
    obtain ⟨l, heq, _⟩ := complete_stale h ho hknown hcur hq
    exact hs.stale a outcome session rfl (staleResult a outcome) (by simp only [exec, heq]) rfl hgen
  | _ => trivial

/-! ## Every run -/

/-- Stale retirement in a run: it spares the works of the current generation, and at any point a
session that is ready for a queued work can finish it. -/
structure StaleSafe (b : StoreForwardBridge) (calls : List Call) : Prop where
  spares : ∀ e ∈ b.history calls, Spares e.before e.input
  resumes : ∀ pre post, calls = pre ++ post → ∀ i ∈ (b.log pre).queued, ∀ mem session,
    workCurrent i.work.identity session = true →
    ∃ more : List Call, (∀ c ∈ more, c.memory = mem ∧ c.op.session = some session) ∧
      ∃ i' r, (i', .completed r) ∈ (b.log (pre ++ more)).released ∧ Finished i i' r

theorem log_append (b : StoreForwardBridge) (calls more : List Call) :
    b.log (calls ++ more) = Machine.observe Log.observe (b.log calls) ((b.run calls).history more) := by
  rw [log, history, Machine.trace_append, Machine.observe_append]
  rfl

/-- **Stale retirement is safe exactly in the runs that ask it of no lagging session.** -/
theorem stale_retirement_iff (hb : b.Deployed) (calls : List Call) :
    StaleSafe b calls ↔ ∀ e ∈ b.history calls, NotLagging e.before e.input.op := by
  have hcoherent : ∀ e ∈ b.history calls, e.before.Coherent := by
    intro e he
    exact (Machine.inv_trace exec (P := Coherent) (fun _ c h => exec_coherent h c) hb.coherent calls e he).1
  constructor
  · intro h e he
    exact notLagging_of_spares (hcoherent e he) (h.spares e he)
  · intro h
    refine ⟨fun e he => spares_of_notLagging (hcoherent e he) (h e he), ?_⟩
    intro pre _ _ i hi mem session hcur
    obtain ⟨b', g', i', r, ⟨more, hmore, rfl, rfl⟩, hmem, hfinished⟩ := (log_tracks hb pre).finishes mem hi hcur
    refine ⟨more, hmore, i', r, ?_, hfinished⟩
    rw [log_append]
    exact hmem

/-- A work of generation 9 is admitted, and the stale works are asked for in `session`. -/
def retireCalls (session : SessionStateView) : List Call :=
  [⟨testMemory, .admitWork (.holding firstWork) testSession ⟨3, 0⟩⟩, ⟨testMemory, .discardOneStaleWork session⟩]

/-- Generation 10 is on its way up: the work will never be current again. -/
theorem stale_retirement_iff_test : StaleSafe testBridge (retireCalls ⟨true, 10, 10, .initializing⟩) := by
  refine (stale_retirement_iff testBridge_deployed (retireCalls ⟨true, 10, 10, .initializing⟩)).2 ?_
  intro e he
  simp only [history, retireCalls, Machine.trace_cons, Machine.trace_nil, List.mem_cons, List.not_mem_nil, or_false] at he
  rcases he with rfl | rfl
  · trivial
  · intro _ s hs hgen
    have hfront : (testBridge.exec ⟨testMemory, .admitWork (.holding firstWork) testSession ⟨3, 0⟩⟩).2.queue.head?.map
        (·.workIdentity.sessionGeneration) = some 9 := by decide +kernel
    rw [Option.mem_def] at hs
    simp only [hs, Option.map_some, Option.some.injEq] at hfront
    rw [hfront] at hgen
    exact absurd hgen (by decide)

/-- Generation 9 is on its way up again: the work is retired all the same. -/
theorem lagging_session_retires : ¬ StaleSafe testBridge (retireCalls ⟨true, 9, 9, .initializing⟩) := by
  intro h
  have hspares := h.spares ⟨_, ⟨testMemory, .discardOneStaleWork ⟨true, 9, 9, .initializing⟩⟩, _⟩
    (List.mem_cons_of_mem _ List.mem_cons_self)
  have hwork : ((testBridge.exec ⟨testMemory, .admitWork (.holding firstWork) testSession ⟨3, 0⟩⟩).2.discardOneStaleWork
      ⟨true, 9, 9, .initializing⟩).2.1.work.sessionGeneration = 9 := by decide +kernel
  exact hspares.discarded _ rfl _ rfl hwork.symm

end StoreForwardBridge

end ModbusRTUBridge
