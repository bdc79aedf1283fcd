import ModbusRTUBridge.LogTrace
/-!
# One truthful notice for every tracked work

The notice is decided by the aggregate in the ledger, the drain by the ledger slot and the
retirement by the facade. Read off the answers of an instance they agree: a tracked work gets
its one notice from the completion that retires it, and it is a success exactly when every
fragment of the whole range was applied.
-/

namespace ModbusRTUBridge

/-- The notice an answer carries, if it is one. -/
def Answer.notice (x : Answer) : Option CompletionNotice :=
  if x.result.decision.notice = .none then none else some x.result.decision.notice

/-- The notices of an instance. -/
def Instance.notices (i : Instance) : List CompletionNotice := i.answers.filterMap Answer.notice

/-- Every fragment of the work was completed as applied, up to the end of its range. -/
structure Instance.AllApplied (i : Instance) : Prop where
  covers : Covers i.work.start i.work.count (i.answers.map (·.write))
  applied : ∀ x ∈ i.answers, x.result.status = .completed ∧ x.outcome = .applied

/-- The notice of any `complete` call, taken or not. -/
def resultNotice : Res → Option CompletionNotice
  | .completion r => if r.decision.notice = .none then none else some r.decision.notice
  | _ => none

/-- What the release of an instance says about its notices. -/
def Truthful (i : Instance) : Release → Prop
  | .completed r =>
    (r.status = .completed →
      (i.work.delivery = .tracked → i.notices = [r.decision.notice] ∧
        (∃ before x, i.answers = before ++ [x] ∧ x.result = r) ∧
        (r.decision.notice = .workSucceeded ↔ i.AllApplied) ∧ (r.decision.notice = .workFailed ↔ ¬ i.AllApplied)) ∧
      r.work.settled = true ∧ r.work.drained = true ∧ (r.work.outcome = .applied ↔ i.AllApplied)) ∧
    (r.status ≠ .completed → r.status = .staleSession ∧ i.notices = [])
  | .retired _ => i.notices = []
  | .reset => i.notices = []

section
variable {p : ForwardPlanner} {i : Instance} {s : StoreForwardWorkSlot} {o : Option StoreForwardAction}
  {a : StoreForwardAction} {outcome : DownstreamOutcome} {before : List Answer}

theorem Answer.Progress.notice_none {x : Answer} (h : x.Progress) : x.notice = none := by
  simp [Answer.notice, h.notice]

theorem filterMap_progress (h : ∀ x ∈ before, x.Progress) : before.filterMap Answer.notice = [] :=
  List.filterMap_eq_nil_iff.2 fun x hx => (h x hx).notice_none

theorem InProgress.notices_nil (h : InProgress p i s o) : i.notices = [] := filterMap_progress h.applied

theorem InProgress.delivery_eq (h : InProgress p { i with answers := before } s (some a)) (ha : s.Issued p a) :
    a.write.delivery = i.work.delivery := by
  rw [ha.delivery_eq, h.sent.sameWork.delivery]
  exact Ingress.slot_workDelivery _ _

/-- With the last fragment applied the work is; with a failure it is not. -/
theorem InProgress.allApplied_iff (h : InProgress p { i with answers := before } s (some a)) (ha : s.Issued p a)
    (hi : i.Admitted p) {r : StoreForwardCompletion} (hr : r.status = .completed) (hret : retires a.write outcome = true)
    (hans : i.answers = before ++ [⟨a.write, outcome, r⟩]) : i.AllApplied ↔ outcome = .applied := by
  constructor
  · intro hall
    exact (hall.applied ⟨a.write, outcome, r⟩ (by simp [hans])).2
  · intro ho
    have hfin : a.write.finalFragment = true := by simpa [retires, ho] using hret
    have hwrites : i.answers.map (·.write) = i.issued := by
      have hissued : i.issued = before.map (·.write) ++ [a.write] := h.issued
      rw [hissued, hans]
      simp
    have hcovers := h.sent.covers hi.fresh ha.ok (ha.final_iff.1 hfin)
    constructor
    · rw [hwrites]
      simpa [Instance.slot] using hcovers
    · intro x hx
      rw [hans] at hx
      rcases List.mem_append.1 hx with hx | hx
      · exact ⟨(h.applied x hx).status, (h.applied x hx).outcome⟩
      · rw [List.mem_singleton.1 hx]
        exact ⟨hr, ho⟩

/-- The notice of a settled fragment that ends its work. -/
theorem decisionFor_notice {w : PlannedWriteRequest} (hret : retires w outcome = true) :
    (decisionFor w outcome).notice =
      if tracksPublicCompletion w.delivery = true then
        if outcome = .applied then .workSucceeded else .workFailed
      else .none := by
  unfold decisionFor
  by_cases ho : outcome = .applied
  · have hfin : w.finalFragment = true := by simpa [retires, ho] using hret
    cases htr : tracksPublicCompletion w.delivery <;> simp [ho, hfin]
  · cases htr : tracksPublicCompletion w.delivery <;> simp [ho]

/-- **Every release is truthful.** -/
theorem Closed.truthful {how : Release} (h : Closed p i how) (hi : i.Admitted p) : Truthful i how := by
  cases how with
  | completed r =>
    obtain ⟨before, s, a, outcome, hp, ha, hans, ⟨rfl, hret⟩ | rfl⟩ := h
    · have hall := hp.allApplied_iff ha hi (r := StoreForwardBridge.settledResult a outcome) rfl hret hans
      have hnotice := decisionFor_notice hret
      rw [hp.delivery_eq ha] at hnotice
      refine ⟨fun _ => ⟨fun htr => ?_, ?_, ?_, ?_⟩, fun hne => absurd rfl hne⟩
      · have hnot : (decisionFor a.write outcome).notice = if outcome = .applied then .workSucceeded else .workFailed := by
          simpa [tracksPublicCompletion, htr] using hnotice
        have hne : (decisionFor a.write outcome).notice ≠ .none := by rw [hnot]; split <;> decide
        refine ⟨?_, ⟨before, _, hans, rfl⟩, ?_, ?_⟩
        · rw [Instance.notices, hans, List.filterMap_append, filterMap_progress hp.applied]
          simp [Answer.notice, StoreForwardBridge.settledResult, hne]
        · rw [hall]
          show (decisionFor a.write outcome).notice = _ ↔ _
          rw [hnot]
          split <;> simp_all
        · rw [hall]
          show (decisionFor a.write outcome).notice = _ ↔ _
          rw [hnot]
          split <;> simp_all
      · show (summaryFor a.write outcome).settled = true
        simp [summaryFor, hret]
      · show (summaryFor a.write outcome).drained = true
        simp [summaryFor, hret]
      · rw [hall, ← workOutcomeFor_applied]
        show (summaryFor a.write outcome).outcome = _ ↔ _
        simp [summaryFor, hret]
    · refine ⟨fun e => (by cases e), fun _ => ⟨rfl, ?_⟩⟩
      rw [Instance.notices, hans, List.filterMap_append, filterMap_progress hp.applied]
      simp [Answer.notice, StoreForwardBridge.staleResult]
  | retired r =>
    obtain ⟨s, hp, _⟩ := h
    exact hp.notices_nil
  | reset =>
    obtain ⟨s, hp⟩ := h
    exact hp.notices_nil

/-- A work whose completion is not tracked is never told about. -/
theorem Closed.notices_untracked {how : Release} (h : Closed p i how) (hd : i.work.delivery ≠ .tracked) : i.notices = [] := by
  cases how with
  | completed r =>
    obtain ⟨before, s, a, outcome, hp, ha, hans, hr⟩ := h
    rw [Instance.notices, hans, List.filterMap_append, filterMap_progress hp.applied]
    have htr : tracksPublicCompletion a.write.delivery = false := by
      rw [hp.delivery_eq ha]
      simpa [tracksPublicCompletion] using hd
    rcases hr with ⟨rfl, hret⟩ | rfl
    · simp [Answer.notice, StoreForwardBridge.settledResult, decisionFor_notice hret, htr]
    · simp [Answer.notice, StoreForwardBridge.staleResult]
  | retired r =>
    obtain ⟨s, hp, _⟩ := h
    exact hp.notices_nil
  | reset =>
    obtain ⟨s, hp⟩ := h
    exact hp.notices_nil

theorem Truthful.notices_le {how : Release} (h : Truthful i how) (hu : i.work.delivery ≠ .tracked → i.notices = []) :
    i.notices.length ≤ 1 := by
  cases how with
  | completed r =>
    by_cases hd : i.work.delivery = .tracked
    · by_cases hr : r.status = .completed
      · rw [((h.1 hr).1 hd).1]
        exact Nat.le_refl _
      · rw [(h.2 hr).2]
        exact Nat.zero_le _
    · rw [hu hd]
      exact Nat.zero_le _
  | retired r =>
    rw [show i.notices = [] from h]
    exact Nat.zero_le _
  | reset =>
    rw [show i.notices = [] from h]
    exact Nat.zero_le _

end

open StoreForwardBridge

variable {p : ForwardPlanner} {b b' : StoreForwardBridge} {g : Log} {c : Call} {r : Res}

/-- Nothing but the answer to a write carries a notice. -/
theorem StoreForwardBridge.Step.notice (hs : Step b c r b') : resultNotice r = (writeAnswer c r).bind Answer.notice := by
  cases hs with
  | @refused c r hr hq =>
    cases r with
    | completion r =>
      rw [Log.writeAnswer_refused hr]
      simp [resultNotice, (hq r rfl).1]
    | _ => rfl
  | _ => rfl

/-- An answer is given to a fragment of the instance it is noted of. -/
theorem Tracks.answer_identity (h : Tracks p b g) {i : Instance} (hi : i ∈ g.instances) :
    ∀ x ∈ i.answers, x.write.identity.work = i.work.identity := by
  obtain ⟨before, s, o, tail, hp, hans, htail⟩ := h.stands hi
  have hissued : i.issued = before.map (·.write) ++ (o.map (·.write)).toList := hp.issued
  intro x hx
  have hmem : x.write ∈ i.issued := by
    rw [hissued]
    rw [hans] at hx
    rcases List.mem_append.1 hx with hx | hx
    · exact List.mem_append_left _ (List.mem_map_of_mem hx)
    · rw [htail x hx]
      simp
  exact (hp.sent.identity_eq hmem).trans (Ingress.slot_workIdentity _ _)

/-- **Notices**: what the calls announced, in order, are the notices of the instances. -/
theorem log_notices (hb : b.Deployed) (calls : List Call) : (b.log calls).instances.flatMap Instance.notices =
    (b.history calls).flatMap fun e => (resultNotice e.output).toList := by
  rw [log_collects hb calls (fun _ x => (x.bind Answer.notice).toList) rfl ?_ fun _ _ h => by simp [Instance.notices, h]]
  · apply List.flatMap_congr
    intro e he
    obtain ⟨hcoh, hout⟩ := Machine.inv_trace exec (P := Coherent) (fun _ c h => exec_coherent h c) hb.coherent calls e he
    have hs := exec_step hcoh e.input
    rw [← hout] at hs
    rw [hs.notice]
  · intro i w x
    cases x with
    | none => simp [Instance.notices, Instance.noted]
    | some x => cases hx : x.notice <;> simp [Instance.notices, Instance.noted, hx]

/-- **Exactly one truthful notice for every tracked work.** All notices of a run are notices of
its instances, and answers to the instance's own fragments; there is at most one for each, and
none unless it is tracked. A tracked work retired by a completed action got it from that very
call, as a success if and only if its whole range was applied; work dropped in any other way is
never told about. -/
theorem notices_truthful (hb : b.Deployed) (calls : List Call) :
    (b.log calls).instances.flatMap Instance.notices =
      ((b.history calls).flatMap fun e => (resultNotice e.output).toList) ∧
    (∀ i ∈ (b.log calls).instances, i.notices.length ≤ 1 ∧ (i.work.delivery ≠ .tracked → i.notices = []) ∧
      ∀ x ∈ i.answers, x.write.identity.work = i.work.identity) ∧
    (∀ i ∈ (b.log calls).queued, i.notices = []) ∧
    ∀ x ∈ (b.log calls).released, Truthful x.1 x.2 := by
  have h := log_tracks hb calls
  have hqueued : ∀ i ∈ (b.log calls).queued, i.notices = [] := fun i hi =>
    let ⟨_, _, _, hp, _⟩ := h.queued.inProgress hi
    hp.notices_nil
  have hreleased : ∀ x ∈ (b.log calls).released, Truthful x.1 x.2 := fun x hx =>
    (h.released x hx).truthful (h.admitted x.1 (List.mem_append_left _ (List.mem_map_of_mem hx)))
  refine ⟨log_notices hb calls, ?_, hqueued, hreleased⟩
  intro i hi
  have hboth : i.notices.length ≤ 1 ∧ (i.work.delivery ≠ .tracked → i.notices = []) := by
    rcases List.mem_append.1 hi with hi | hi
    · obtain ⟨x, hx, rfl⟩ := List.mem_map.1 hi
      have hu := (h.released x hx).notices_untracked
      exact ⟨(hreleased x hx).notices_le hu, hu⟩
    · rw [hqueued i hi]
      exact ⟨Nat.zero_le _, fun _ => rfl⟩
  exact ⟨hboth.1, hboth.2, h.answer_identity hi⟩

/-- Of the two works of the test only the second is tracked; the third completion announces it. -/
theorem notices_truthful_test :
    ((testBridge.history (testCalls 3)).flatMap fun e => (resultNotice e.output).toList) = [.workSucceeded] ∧
    (testBridge.log (testCalls 3)).instances.flatMap Instance.notices = [.workSucceeded] :=
  have htrace : ((testBridge.history (testCalls 3)).flatMap fun e => (resultNotice e.output).toList) = [.workSucceeded] := by
    decide +kernel
  ⟨htrace, (notices_truthful testBridge_deployed (testCalls 3)).1.trans htrace⟩

end ModbusRTUBridge
