import ModbusRTUBridge.Lib.RoundRobin
import ModbusRTUBridge.PollPlanner
/-!
# What `select` selects

The scan visits the candidates cyclically from the persistent cursor and stops at the first
due one. `select` weighs that candidate against a ready forward by the burst counter alone,
and `commit` of a selection always succeeds.
-/

namespace ModbusRTUBridge

namespace PollPlanner

open RoundRobin (ahead after)

/-- Where a scan of `n` candidates starts (`beginPollScan`): an out-of-range cursor means 0. -/
def scanStart (n : UInt16) (state : PollPlannerState) : Nat :=
  if state.nextPollIndex < n then state.nextPollIndex.toNat else 0

theorem scanStart_lt {n : UInt16} (hn : n ≠ 0) (state : PollPlannerState) : scanStart n state < n.toNat := by
  have hpos : 0 < n.toNat := toNat_pos.2 hn
  unfold scanStart
  split
  · rename_i h; exact UInt16.lt_iff_toNat_lt.1 h
  · exact hpos

variable {now : UInt32} {polls : Storage PollCandidate} {n : UInt16} {state : PollPlannerState}

/-- `i` is the first due candidate from `s` on. -/
structure FirstDue (now : UInt32) (polls : Storage PollCandidate) (n : UInt16) (s : Nat) (i : UInt16) : Prop where
  lt : i.toNat < n.toNat
  due : isDue now polls i = true
  first : ∀ j : UInt16, j.toNat < n.toNat → isDue now polls j = true → ahead n.toNat s i.toNat ≤ ahead n.toNat s j.toNat

/-- A scan in progress: everything visited so far was not due. -/
structure Scanning (now : UInt32) (polls : Storage PollCandidate) (n : UInt16) (s : Nat) (c : PollScanCursor) : Prop where
  count : c.candidateCount = n
  active : c.active = true ↔ c.remaining ≠ 0
  index_lt : c.nextIndex.toNat < n.toNat
  remaining_le : c.remaining.toNat ≤ n.toNat
  position : c.remaining ≠ 0 → ahead n.toNat s c.nextIndex.toNat + c.remaining.toNat = n.toNat
  visited : ∀ j : UInt16, j.toNat < n.toNat → ahead n.toNat s j.toNat + c.remaining.toNat < n.toNat →
    isDue now polls j = false

theorem nextIndex_done {c : PollScanCursor} (h : c.remaining = 0) : (nextIndex c).1 = none := by
  simp [nextIndex, h]

/-- The cursor after candidate `i`. -/
theorem toNat_after {i : UInt16} (hi : i.toNat < n.toNat) :
    (if i + 1 = n then (0 : UInt16) else i + 1).toNat = after n.toNat i.toNat := by
  have hnlt := n.toNat_lt
  have hadd : (i + 1).toNat = i.toNat + 1 := toNat_succ_of_lt (by omega)
  unfold after
  simp only [← UInt16.toNat_inj, hadd]
  split
  · rfl
  · exact hadd

/-- One step of the cursor. -/
theorem nextIndex_step {c : PollScanCursor} (hcount : c.candidateCount = n) (hact : c.active = true)
    (hlt : c.nextIndex.toNat < n.toNat) (hr : c.remaining ≠ 0) :
    (nextIndex c).1 = some c.nextIndex ∧ (nextIndex c).2.candidateCount = n ∧
      ((nextIndex c).2.active = true ↔ (nextIndex c).2.remaining ≠ 0) ∧
      (nextIndex c).2.nextIndex.toNat = after n.toNat c.nextIndex.toNat ∧
      (nextIndex c).2.remaining.toNat + 1 = c.remaining.toNat := by
  have hpos : 0 < c.remaining.toNat := toNat_pos.2 hr
  have hn : n ≠ 0 := toNat_pos.1 (Nat.zero_lt_of_lt hlt)
  have hsub : (c.remaining - 1).toNat = c.remaining.toNat - 1 := toNat_pred hpos
  have heq : nextIndex c = (some c.nextIndex, { c with
      nextIndex := if c.nextIndex + 1 = n then 0 else c.nextIndex + 1
      remaining := c.remaining - 1
      active := if c.remaining - 1 = 0 then false else c.active }) := by
    simp [nextIndex, hact, hr, hcount, hn]
  rw [heq]
  refine ⟨rfl, hcount, ?_, toNat_after hlt, ?_⟩
  · show (if c.remaining - 1 = 0 then false else c.active) = true ↔ c.remaining - 1 ≠ 0
    rw [hact]; split <;> simp_all
  · show (c.remaining - 1).toNat + 1 = c.remaining.toNat
    omega

/-- One visit. -/
theorem nextIndex_visit {s : Nat} {c : PollScanCursor} (hs : s < n.toNat) (h : Scanning now polls n s c)
    (hr : c.remaining ≠ 0) : (nextIndex c).1 = some c.nextIndex ∧
      (isDue now polls c.nextIndex = false → Scanning now polls n s (nextIndex c).2) ∧
      (nextIndex c).2.remaining.toNat + 1 = c.remaining.toNat := by
  have hlt := h.index_lt
  have hposn := h.position hr
  obtain ⟨hsome, hcount, hact, hafter, hrem⟩ := nextIndex_step h.count (h.active.2 hr) hlt hr
  refine ⟨hsome, fun hdue => ⟨hcount, hact, ?_, ?_, ?_, ?_⟩, hrem⟩
  · rw [hafter]; exact RoundRobin.after_lt hlt
  · have := h.remaining_le
    omega
  · intro hr'
    have hr1 := toNat_pos.2 hr'
    rw [hafter, RoundRobin.ahead_step hs hlt (by omega)]
    omega
  · intro j hj hvis
    by_cases hji : ahead n.toNat s j.toNat = ahead n.toNat s c.nextIndex.toNat
    · rw [UInt16.toNat_inj.1 (RoundRobin.ahead_inj hs hj hlt hji)]; exact hdue
    · exact h.visited j hj (by omega)

/-- **The scan stops at the first due candidate**, or there is none. -/
theorem nextDueLoop_spec {s : Nat} (hs : s < n.toNat) (fuel : Nat) {c : PollScanCursor}
    (h : Scanning now polls n s c) (hfuel : c.remaining.toNat < fuel) :
    (∃ i, (nextDueLoop now polls n fuel c).1 = .due ∧
      (nextDueLoop now polls n fuel c).2.2 = .fromCandidateSet .poll i n ∧ FirstDue now polls n s i) ∨
    ((nextDueLoop now polls n fuel c).1 = .complete ∧ ∀ j : UInt16, j.toNat < n.toNat → isDue now polls j = false) := by
  induction fuel generalizing c with
  | zero => omega
  | succ fuel ih =>
    by_cases hr : c.remaining = 0
    · right
      have hnone := nextIndex_done hr
      obtain ⟨o, c', hc⟩ : ∃ o c', nextIndex c = (o, c') := ⟨_, _, rfl⟩
      rw [hc] at hnone
      simp only at hnone
      subst hnone
      simp only [nextDueLoop, hc]
      exact ⟨trivial, fun j hj => h.visited j hj (by rw [hr]; simpa using RoundRobin.ahead_lt hs hj)⟩
    · obtain ⟨hsome, hnext, hrem⟩ := nextIndex_visit hs h hr
      obtain ⟨o, c', hc⟩ : ∃ o c', nextIndex c = (o, c') := ⟨_, _, rfl⟩
      rw [hc] at hsome hnext hrem
      simp only at hsome hnext hrem
      subst hsome
      simp only [nextDueLoop, hc]
      cases hdue : isDue now polls c.nextIndex with
      | true =>
        left
        refine ⟨c.nextIndex, rfl, rfl, h.index_lt, hdue, ?_⟩
        intro j hj hjdue
        apply Nat.le_of_not_lt
        intro hlt
        have := h.position hr
        rw [h.visited j hj (by omega)] at hjdue
        cases hjdue
      | false => exact ih (hnext hdue) (by omega)

variable (now polls) in
theorem begin_scanning (hn : n ≠ 0) (state : PollPlannerState) :
    Scanning now polls n (scanStart n state) (beginPollScan n state) := by
  have hpos : 0 < n.toNat := toNat_pos.2 hn
  have hidx : (beginPollScan n state).nextIndex.toNat = scanStart n state := by
    simp only [beginPollScan, hn, scanStart]
    simp only [if_false]
    split <;> simp
  have hrem : (beginPollScan n state).remaining = n := by simp [beginPollScan, hn]
  refine ⟨by simp [beginPollScan, hn], by simp [beginPollScan, hn], ?_, Nat.le_of_eq (congrArg UInt16.toNat hrem), ?_, ?_⟩
  · rw [hidx]; exact scanStart_lt hn state
  · intro _
    rw [hidx, hrem]
    simp [ahead]
  · intro j _ hlt
    rw [hrem] at hlt
    omega

/-! ## `select` and `commit` -/

/-- The scan of `select` over real storage: the first due candidate, or none. -/
theorem nextDue_cases (now : UInt32) (hstore : n = 0 ∨ polls.isNone = false) (state : PollPlannerState) :
    (∃ i, (nextDue now polls n (beginPollScan n state)).1 = .due ∧
      (nextDue now polls n (beginPollScan n state)).2.2 = .fromCandidateSet .poll i n ∧
      FirstDue now polls n (scanStart n state) i) ∨
    ((nextDue now polls n (beginPollScan n state)).1 = .complete ∧
      ∀ j : UInt16, j.toNat < n.toNat → isDue now polls j = false) := by
  by_cases hn : n = 0
  · right
    subst hn
    exact ⟨rfl, fun j hj => absurd hj (Nat.not_lt_zero _)⟩
  · have hsome : polls.isNone = false := hstore.resolve_left hn
    have hscan := begin_scanning now polls hn state
    unfold nextDue
    rw [if_neg (by simp [hsome]), if_neg (by simp [hscan.count])]
    exact nextDueLoop_spec (scanStart_lt hn state) _ hscan (Nat.lt_succ_self _)

/-- A forward write, as `select` proposes it. -/
abbrev forwardSelection (n : UInt16) : PollSelection := .fromCandidateSet .forwardWrite 0 n

/-- **What `select` proposes**: with a due candidate, a forward while the burst lasts and the
candidate otherwise; with none, a forward if one is ready. -/
theorem select_spec (p : PollPlanner) (now : UInt32) (state : PollPlannerState)
    (hstore : n = 0 ∨ polls.isNone = false) (forwardReady : Bool) :
    (∃ i, FirstDue now polls n (scanStart n state) i ∧ p.select now forwardReady polls n state =
      (.selected, if forwardReady = true ∧ state.forwardsSincePoll < p.options.maxConsecutiveForwards
        then forwardSelection n else .fromCandidateSet .poll i n)) ∨
    ((∀ j : UInt16, j.toNat < n.toNat → isDue now polls j = false) ∧ p.select now forwardReady polls n state =
      if forwardReady = true then (.selected, forwardSelection n) else (.noAction, {})) := by
  have hok : ¬ (n ≠ 0 ∧ polls.isNone = true) := by
    rintro ⟨h1, h2⟩
    rcases hstore with h | h
    · exact h1 h
    · rw [h] at h2; cases h2
  unfold select
  rw [if_neg hok]
  rcases nextDue_cases now hstore state with ⟨i, h1, h2, hfirst⟩ | ⟨h1, hnone⟩
  · refine Or.inl ⟨i, hfirst, ?_⟩
    simp only [h1, h2]
    cases forwardReady <;> simp
    split <;> rfl
  · refine Or.inr ⟨hnone, ?_⟩
    simp only [h1]
    cases forwardReady <;> simp

theorem select_invalid (p : PollPlanner) (h : n ≠ 0 ∧ polls.isNone = true) (forwardReady : Bool) :
    p.select now forwardReady polls n state = (.invalidStorage, {}) := if_pos h

/-- A selection names its candidate set and is one of the two kinds. -/
theorem select_selected {p : PollPlanner} {forwardReady : Bool} {selection : PollSelection}
    (h : p.select now forwardReady polls n state = (.selected, selection)) :
    (n = 0 ∨ polls.isNone = false) ∧
    (selection = forwardSelection n ∧ forwardReady = true ∨
      ∃ i, selection = .fromCandidateSet .poll i n ∧ FirstDue now polls n (scanStart n state) i) := by
  by_cases hbad : n ≠ 0 ∧ polls.isNone = true
  · rw [select_invalid p hbad] at h; cases h
  · have hstore : n = 0 ∨ polls.isNone = false := by
      by_cases hn : n = 0
      · exact Or.inl hn
      · exact Or.inr (Bool.eq_false_iff.2 fun e => hbad ⟨hn, e⟩)
    refine ⟨hstore, ?_⟩
    rcases select_spec p now state hstore forwardReady with ⟨i, hfirst, heq⟩ | ⟨_, heq⟩
    · rw [heq] at h
      split at h
      · rename_i hf; cases h; exact Or.inl ⟨rfl, hf.1⟩
      · cases h; exact Or.inr ⟨i, rfl, hfirst⟩
    · rw [heq] at h
      split at h
      · rename_i hf; cases h; exact Or.inl ⟨rfl, hf⟩
      · cases h

@[simp] theorem commit_forward (n : UInt16) (now : UInt32) (state : PollPlannerState) :
    (commit (forwardSelection n) n now state).1 = true := by
  simp [commit, PollSelection.fromCandidateSet]

/-- **What a commit of a bound poll publishes**: with the count of its scan and one of the candidates,
the index after it and the time; else nothing. -/
theorem commit_bound (hn : n ≠ 0) (index count : UInt16) (now : UInt32) (state : PollPlannerState) :
    commit (.fromCandidateSet .poll index n) count now state =
      if count = n ∧ index < n then (true, ⟨if index + 1 = n then 0 else index + 1, 0, now, true⟩)
      else (false, state) := by
  by_cases hcount : count = n
  · subst hcount
    by_cases hindex : index < count
    · simp only [commit, PollSelection.fromCandidateSet, hn, ge_iff_le, UInt16.not_le.2 hindex, or_self, hindex,
        and_self, if_true, if_false, ne_eq, not_true_eq_false, and_false]
      rfl
    · simp [commit, PollSelection.fromCandidateSet, UInt16.not_lt.1 hindex, hindex]
  · have hne : n ≠ count := fun e => hcount e.symm
    simp [commit, PollSelection.fromCandidateSet, hne, hcount]

theorem commit_poll {i : UInt16} (hi : i.toNat < n.toNat) (now : UInt32) (state : PollPlannerState) :
    (commit (.fromCandidateSet .poll i n) n now state).1 = true := by
  rw [commit_bound (toNat_pos.1 (Nat.zero_lt_of_lt hi)), if_pos ⟨rfl, UInt16.lt_iff_toNat_lt.2 hi⟩]

end PollPlanner

end ModbusRTUBridge
