import ModbusRTUBridge.Tracking
/-!
# The log and the trace

What the log keeps of every instance, read instance by instance in admission order, is what the
trace shows call by call: nothing is lost, reordered or attributed twice.
-/

namespace ModbusRTUBridge

/-- The instance as its admission started it. -/
def Instance.origin (i : Instance) : Instance := { work := i.work, context := i.context, memory := i.memory }

/-- Note: a fragment issued and an answer given, to the instance in front. -/
def Instance.noted (i : Instance) (w : Option PlannedWriteRequest) (x : Option Answer) : Instance :=
  { i with issued := i.issued ++ w.toList, answers := i.answers ++ x.toList }

@[simp] theorem Instance.origin_noted (i : Instance) (w : Option PlannedWriteRequest) (x : Option Answer) :
    (i.noted w x).origin = i.origin := rfl

theorem admittedInstance_origin {c : Call} {r : Res} {i : Instance} (h : admittedInstance c r = some i) :
    i.origin = i ∧ i.issued = [] ∧ i.answers = [] := by
  obtain ⟨mem, op⟩ := c
  cases r <;> cases op <;> simp only [admittedInstance, reduceCtorEq] at h
  split at h
  · cases h; exact ⟨rfl, rfl, rfl⟩
  · cases h

/-- A call notes something or admits something, never both. -/
theorem noted_or_admitted (c : Call) (r : Res) :
    admittedInstance c r = none ∨ (issuedWrite c r = none ∧ writeAnswer c r = none) := by
  cases r <;> first | exact Or.inl rfl | exact Or.inr ⟨rfl, rfl⟩

namespace Log

variable {g : Log} {w : Option PlannedWriteRequest} {x : Option Answer}

theorem instances_note_cons {i : Instance} {is : List Instance} (h : g.queued = i :: is) :
    (g.note w x).instances = g.released.map Prod.fst ++ i.noted w x :: is := by
  simp [note, instances, h, Instance.noted]

theorem instances_note_nil (h : g.queued = []) : (g.note w x).instances = g.instances := by
  simp [note, instances, h]

/-- Apart from the instance in front, noting changes nothing. -/
theorem mem_instances_note {j : Instance} (hj : j ∈ (g.note w x).instances) :
    j ∈ g.instances ∨ ∃ i, g.queued.head? = some i ∧ j = i.noted w x := by
  cases hq : g.queued with
  | nil => rw [instances_note_nil hq] at hj; exact Or.inl hj
  | cons i is =>
    rw [instances_note_cons hq] at hj
    simp only [instances, hq, List.mem_append, List.mem_cons] at hj ⊢
    rcases hj with hj | rfl | hj
    · exact Or.inl (Or.inl hj)
    · exact Or.inr ⟨i, rfl, rfl⟩
    · exact Or.inl (Or.inr (Or.inr hj))

/-- The instances after a call. -/
theorem instances_observe (g : Log) (c : Call) (r : Res) : (g.observe c r).instances =
    (g.note (issuedWrite c r) (writeAnswer c r)).instances ++ (admittedInstance c r).toList := by
  by_cases hr : r = .reset true
  · subst hr
    have : g.note (issuedWrite c (.reset true)) (writeAnswer c (.reset true)) = g := note_none g
    rw [this]
    show g.releaseAll.instances = g.instances ++ []
    simp
  · rw [observe_eq hr, instances_release]
    rcases noted_or_admitted c r with h | ⟨h1, h2⟩
    · simp [h]
    · simp [h1, h2]

end Log

namespace StoreForwardBridge

variable {p : ForwardPlanner} {b b' : StoreForwardBridge} {g : Log} {c : Call} {r : Res} {calls : List Call}

/-- What is noted is noted of a queued work. -/
theorem Step.noted_queue (hs : Step b c r b') (h : issuedWrite c r ≠ none ∨ writeAnswer c r ≠ none) : b.queue ≠ [] := by
  cases hs with
  | refused hr hq =>
    exfalso
    obtain ⟨mem, op⟩ := c
    cases r <;> cases op <;> simp_all [issuedWrite, writeAnswer, Res.effective, Taken]
  | skipped => simp [issuedWrite, writeAnswer] at h
  | @pollAdmitted mem a session polls n i hf hp =>
    have hk : a.kind = .poll := by rw [hp.shape]
    simp [issuedWrite, writeAnswer, hk] at h
  | pollCompleted => simp [issuedWrite, writeAnswer] at h
  | writeAdmitted _ _ hq => rw [hq]; simp
  | settled _ _ _ hq => rw [hq]; simp
  | stale _ _ hq => rw [hq]; simp
  | _ => simp [issuedWrite, writeAnswer] at h

end StoreForwardBridge

open StoreForwardBridge

variable {p : ForwardPlanner} {b b' : StoreForwardBridge} {g : Log} {c : Call} {r : Res}

theorem Waiting.answers {i : Instance} {s : StoreForwardWorkSlot} (h : Waiting p i s) : i.answers = [] := by
  have hi := h.1.issued
  rw [h.2] at hi
  simpa using hi.symm

/-- Behind the front nothing was noted. -/
theorem Tracks.tail_empty (h : Tracks p b g) : ∀ i ∈ g.queued.tail, i.issued = [] ∧ i.answers = [] := by
  intro i hi
  cases hq : b.queue with
  | nil =>
    have := h.queued
    rw [hq] at this
    rw [this.nil_inv] at hi
    cases hi
  | cons s rest =>
    obtain ⟨j, is, hg, _, hw⟩ := h.front hq
    rw [hg, List.tail_cons] at hi
    obtain ⟨k, hk, rfl⟩ := List.mem_iff_getElem.1 hi
    have hwait := hw.get hk (hw.length_eq ▸ hk)
    exact ⟨hwait.2, hwait.answers⟩

/-- What an instance collects from notes, the log as a whole collects from the notes of the
instance in front. -/
theorem Tracks.collects_front (h : Tracks p b g) (c : Call) (r : Res) {X : Type} {f : Instance → List X}
    (add : Instance → Option PlannedWriteRequest → Option Answer → List X)
    (hnoted : ∀ i w x, f (i.noted w x) = f i ++ add i w x)
    (hempty : ∀ i : Instance, i.issued = [] → i.answers = [] → f i = []) :
    (g.observe c r).instances.flatMap f =
      g.instances.flatMap f ++ g.queued.head?.toList.flatMap fun i => add i (issuedWrite c r) (writeAnswer c r) := by
  have hnew : (admittedInstance c r).toList.flatMap f = [] := by
    cases ha : admittedInstance c r with
    | none => rfl
    | some i =>
      obtain ⟨_, h1, h2⟩ := admittedInstance_origin ha
      simp [hempty i h1 h2]
  rw [Log.instances_observe, List.flatMap_append, hnew, List.append_nil]
  cases hq : g.queued with
  | nil =>
    rw [Log.instances_note_nil hq]
    simp
  | cons i is =>
    have htail : is.flatMap f = [] := by
      rw [List.flatMap_eq_nil_iff]
      intro j hj
      obtain ⟨h1, h2⟩ := h.tail_empty j (by rw [hq]; exact hj)
      exact hempty j h1 h2
    rw [Log.instances_note_cons hq]
    simp [Log.instances, hq, htail, hnoted]

/-- Where it does not matter which instance it is noted of, the log collects what is noted. -/
theorem Tracks.collects (h : Tracks p b g) (hs : Step b c r b') {X : Type} {f : Instance → List X}
    {add : Option PlannedWriteRequest → Option Answer → List X} (hadd : add none none = [])
    (hnoted : ∀ i w x, f (i.noted w x) = f i ++ add w x)
    (hempty : ∀ i : Instance, i.issued = [] → i.answers = [] → f i = []) :
    (g.observe c r).instances.flatMap f = g.instances.flatMap f ++ add (issuedWrite c r) (writeAnswer c r) := by
  rw [h.collects_front c r (fun _ => add) hnoted hempty]
  cases hq : g.queued with
  | nil =>
    have hnil : b.queue = [] := by
      have := h.queued.length_eq
      rw [hq] at this
      exact List.length_eq_zero_iff.1 this.symm
    have hnone : issuedWrite c r = none ∧ writeAnswer c r = none := by
      constructor
      · by_contra hne; exact hs.noted_queue (Or.inl hne) hnil
      · by_contra hne; exact hs.noted_queue (Or.inr hne) hnil
    rw [hnone.1, hnone.2, hadd]
    rfl
  | cons i is => simp

/-- **Admissions**: the instances are the successful `admitWork` calls, in order. -/
theorem log_admissions (b : StoreForwardBridge) (calls : List Call) : (b.log calls).instances.map Instance.origin =
    (b.history calls).flatMap fun e => (admittedInstance e.input e.output).toList := by
  refine Machine.observe_collect (R := fun _ _ => True) (φ := fun g : Log => g.instances.map Instance.origin)
    (w := fun _ c r => (admittedInstance c r).toList) (fun _ _ _ _ => trivial) (fun s g c _ => ?_) trivial calls
  have hnote : ∀ w x, (g.note w x).instances.map Instance.origin = g.instances.map Instance.origin := by
    intro w x
    cases hq : g.queued with
    | nil => rw [Log.instances_note_nil hq]
    | cons i is => rw [Log.instances_note_cons hq]; simp [Log.instances, hq]
  have hnew : (admittedInstance c (s.exec c).1).toList.map Instance.origin = (admittedInstance c (s.exec c).1).toList := by
    cases ha : admittedInstance c (s.exec c).1 with
    | none => rfl
    | some i => simp [(admittedInstance_origin ha).1]
  rw [Log.instances_observe, List.map_append, hnote, hnew]

/-- What every instance collected, one instance after the other, is what the calls gave in their
order. -/
theorem log_collects (hb : b.Deployed) (calls : List Call) {X : Type} {f : Instance → List X}
    (add : Option PlannedWriteRequest → Option Answer → List X) (hadd : add none none = [])
    (hnoted : ∀ i w x, f (i.noted w x) = f i ++ add w x)
    (hempty : ∀ i : Instance, i.issued = [] → i.answers = [] → f i = []) :
    (b.log calls).instances.flatMap f =
      (b.history calls).flatMap fun e => add (issuedWrite e.input e.output) (writeAnswer e.input e.output) :=
  Machine.observe_collect (R := Tracks b.forwardPlanner) (φ := fun g : Log => g.instances.flatMap f)
    (w := fun _ c r => add (issuedWrite c r) (writeAnswer c r))
    (fun _ _ c h => h.step (exec_step h.coherent c))
    (fun _ _ c h => h.collects (exec_step h.coherent c) hadd hnoted hempty) (log_tracks hb []) calls

/-- **Issued writes**: no two works are interleaved. -/
theorem log_issued (hb : b.Deployed) (calls : List Call) : (b.log calls).instances.flatMap (·.issued) =
    (b.history calls).flatMap fun e => (issuedWrite e.input e.output).toList :=
  log_collects hb calls (fun w _ => w.toList) rfl (fun _ _ _ => rfl) fun _ h _ => h

/-- **Answers**, likewise. -/
theorem log_answers (hb : b.Deployed) (calls : List Call) : (b.log calls).instances.flatMap (·.answers) =
    (b.history calls).flatMap fun e => (writeAnswer e.input e.output).toList :=
  log_collects hb calls (fun _ x => x.toList) rfl (fun _ _ _ => rfl) fun _ _ h => h

end ModbusRTUBridge
