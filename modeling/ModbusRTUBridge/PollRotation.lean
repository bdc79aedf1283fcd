import Mathlib.Algebra.Group.Nat.Defs
import Mathlib.Data.List.Nodup
import ModbusRTUBridge.Lib.Machine
import ModbusRTUBridge.PollScan
/-!
# The scan paths of the planner and of the wrapper

`nextIndex` after `beginPollScan`, `PollIndexScan`, repeated `nextDue` and `select` are one rotation
over the candidates: `s, …, n - 1, 0, …, s - 1` from the persistent index `s`. The two APIs publish
alike, as `Rotation` says: a list that is handed out, and an index and a time that only a commit of one
of the `n` candidates changes.
-/

namespace ModbusRTUBridge

/-! ## Deadlines in unbounded time -/

/-- The half range decides as unbounded time does, across any rollover. -/
theorem pollDeadlineReached32_iff {time deadline : Int} (h : (time - deadline).natAbs < 2 ^ 31) :
    pollDeadlineReached32 (UInt32.ofInt time) (UInt32.ofInt deadline) = true ↔ deadline ≤ time := by
  have hsub : UInt32.ofInt time - UInt32.ofInt deadline = UInt32.ofInt (time - deadline) := by
    rw [Int.sub_eq_add_neg, UInt32.ofInt_add, UInt32.ofInt_neg, UInt32.sub_eq_add_neg]
  have hword : (UInt32.ofInt (time - deadline)).toNat = ((time - deadline) % 2 ^ 32).toNat := by
    unfold UInt32.ofInt
    rw [UInt32.toNat_ofNat_of_lt']
    simp only [UInt32.size]
    omega
  have hhalf : (0x80000000 : UInt32).toNat = 2 ^ 31 := rfl
  unfold pollDeadlineReached32
  rw [hsub, decide_eq_true_eq, UInt32.lt_iff_toNat_lt, hword, hhalf]
  omega

example : pollDeadlineReached32 5 0xFFFFFFF6 = true := by decide

/-! ## The scan order -/

/-- The candidates in scan order: from the persistent index on, going round. -/
def rotation (n : UInt16) (state : PollPlannerState) : List UInt16 :=
  (List.range' (PollPlanner.scanStart n state) (n.toNat - PollPlanner.scanStart n state) ++
    List.range (PollPlanner.scanStart n state)).map UInt16.ofNat

/-- The enabled candidates whose deadline is not after `time`, in scan order. -/
def dueOrder (n : UInt16) (state : PollPlannerState) (candidates : Nat → PollCandidate) (time : Int)
    (deadline : Nat → Int) : List UInt16 :=
  (rotation n state).filter fun i => (candidates i.toNat).enabled && decide (deadline i.toNat ≤ time)

/-- What a due scan answers with `i` as the next due candidate, or none. -/
def dueAnswer (n : UInt16) : Option UInt16 → PollDueStatus × PollSelection
  | some i => (.due, .fromCandidateSet .poll i n)
  | none => (.complete, {})

variable {n : UInt16} {state : PollPlannerState}

theorem mem_rotation (hn : n ≠ 0) {i : UInt16} : i ∈ rotation n state ↔ i < n := by
  have hs := PollPlanner.scanStart_lt hn state
  have hnlt := n.toNat_lt
  rw [UInt16.lt_iff_toNat_lt, rotation, List.mem_map]
  constructor
  · rintro ⟨k, hk, rfl⟩
    rw [List.mem_append, List.mem_range'_1, List.mem_range] at hk
    rw [UInt16.toNat_ofNat_of_lt' (by simp only [UInt16.size]; omega)]
    omega
  · intro hi
    refine ⟨i.toNat, ?_, UInt16.ofNat_toNat⟩
    rw [List.mem_append, List.mem_range'_1, List.mem_range]
    omega

theorem nodup_rotation (hn : n ≠ 0) : (rotation n state).Nodup := by
  have hs := PollPlanner.scanStart_lt hn state
  have hnlt := n.toNat_lt
  have hbound : ∀ k ∈ List.range' (PollPlanner.scanStart n state) (n.toNat - PollPlanner.scanStart n state) ++
      List.range (PollPlanner.scanStart n state), k < UInt16.size := by
    intro k hk
    rw [List.mem_append, List.mem_range'_1, List.mem_range] at hk
    simp only [UInt16.size]
    omega
  unfold rotation
  refine List.Nodup.map_on ?_ ?_
  · intro j hj k hk he
    rw [← UInt16.toNat_ofNat_of_lt' (hbound j hj), ← UInt16.toNat_ofNat_of_lt' (hbound k hk), he]
  · rw [List.nodup_append]
    refine ⟨List.nodup_range', List.nodup_range, ?_⟩
    intro j hj k hk
    rw [List.mem_range'_1] at hj
    rw [List.mem_range] at hk
    omega

namespace PollPlanner

variable {now : UInt32} {polls : Storage PollCandidate} {xs : List UInt16}

/-! ## What is left of a scan -/

/-- A cursor over `n` candidates with `xs` still to visit. -/
structure Left (n : UInt16) (c : PollScanCursor) (xs : List UInt16) : Prop where
  count : c.candidateCount = n
  active : c.active = true ↔ c.remaining ≠ 0
  index_lt : c.nextIndex.toNat < n.toNat
  walk : xs = (RoundRobin.walk n.toNat c.nextIndex.toNat c.remaining.toNat).map UInt16.ofNat

theorem Left.nil_iff {c : PollScanCursor} (h : Left n c xs) : xs = [] ↔ c.remaining = 0 := by
  rw [← List.length_eq_zero_iff, h.walk, List.length_map, RoundRobin.length_walk, ← UInt16.toNat_inj]
  rfl

theorem begin_left (hn : n ≠ 0) (state : PollPlannerState) : Left n (beginPollScan n state) (rotation n state) := by
  have hidx : (beginPollScan n state).nextIndex.toNat = scanStart n state := by
    simp only [beginPollScan, hn, scanStart, if_false]
    split <;> rfl
  have hrem : (beginPollScan n state).remaining = n := by simp [beginPollScan, hn]
  refine ⟨by simp [beginPollScan, hn], by simp [beginPollScan, hn], ?_, ?_⟩
  · rw [hidx]
    exact scanStart_lt hn state
  · rw [hidx, hrem, RoundRobin.walk_round (scanStart_lt hn state)]
    rfl

/-- `nextIndex` hands out the head. -/
theorem nextIndex_left {c : PollScanCursor} (h : Left n c xs) :
    (nextIndex c).1 = xs.head? ∧ Left n (nextIndex c).2 xs.tail := by
  by_cases hr : c.remaining = 0
  · obtain rfl := h.nil_iff.2 hr
    have heq : nextIndex c = (none, { c with active := false }) := by simp [nextIndex, hr]
    rw [heq]
    exact ⟨rfl, h.count, by simp [hr], h.index_lt, by simpa [hr] using h.walk⟩
  · obtain ⟨hsome, hcount, hact, hafter, hrem⟩ := nextIndex_step h.count (h.active.2 hr) h.index_lt hr
    have hwalk := h.walk
    rw [← hrem, RoundRobin.walk, List.map_cons, UInt16.ofNat_toNat] at hwalk
    rw [hwalk]
    refine ⟨hsome, hcount, hact, ?_, ?_⟩
    · rw [hafter]
      exact RoundRobin.after_lt h.index_lt
    · rw [hafter]
      rfl

/-! ## Repeated `nextDue` -/

/-- The loop stops at the first due candidate of what is left, and leaves what comes after it. -/
theorem nextDueLoop_left (fuel : Nat) {c : PollScanCursor} (h : Left n c xs) (hfuel : xs.length < fuel) :
    ∃ ys, Left n (nextDueLoop now polls n fuel c).2.1 ys ∧
      ys.filter (isDue now polls) = (xs.filter (isDue now polls)).tail ∧
      ((nextDueLoop now polls n fuel c).1, (nextDueLoop now polls n fuel c).2.2) =
        dueAnswer n (xs.filter (isDue now polls)).head? := by
  induction fuel generalizing c xs with
  | zero => omega
  | succ fuel ih =>
    obtain ⟨o, c', hc⟩ : ∃ o c', nextIndex c = (o, c') := ⟨_, _, rfl⟩
    obtain ⟨hout, hleft⟩ := nextIndex_left h
    rw [hc] at hout hleft
    cases xs with
    | nil =>
      obtain rfl : o = none := hout
      simp only [nextDueLoop, hc]
      exact ⟨[], hleft, rfl, rfl⟩
    | cons i xs =>
      obtain rfl : o = some i := hout
      simp only [nextDueLoop, hc]
      cases hdue : isDue now polls i with
      | true =>
        rw [List.filter_cons_of_pos hdue]
        exact ⟨xs, hleft, rfl, rfl⟩
      | false =>
        rw [List.filter_cons_of_neg (by simp [hdue])]
        exact ih hleft (by simpa using hfuel)

/-- `nextDue` as an operation on its cursor. -/
def nextDueAnswer (now : UInt32) (polls : Storage PollCandidate) (n : UInt16) (c : PollScanCursor) :
    (PollDueStatus × PollSelection) × PollScanCursor :=
  let (status, cursor, selection) := nextDue now polls n c
  ((status, selection), cursor)

/-- `ds` are the due ones among those left. -/
def DueLeft (now : UInt32) (polls : Storage PollCandidate) (n : UInt16) (c : PollScanCursor) (ds : List UInt16) :
    Prop :=
  ∃ xs, Left n c xs ∧ xs.filter (isDue now polls) = ds

theorem nextDueAnswer_left (hsome : polls.isNone = false) (c : PollScanCursor) (ds : List UInt16)
    (h : DueLeft now polls n c ds) :
    (nextDueAnswer now polls n c).1 = dueAnswer n ds.head? ∧
      DueLeft now polls n (nextDueAnswer now polls n c).2 ds.tail := by
  obtain ⟨xs, hleft, rfl⟩ := h
  have hlen : xs.length < c.remaining.toNat + 1 := by
    rw [hleft.walk, List.length_map, RoundRobin.length_walk]
    exact Nat.lt_succ_self _
  have hloop : nextDue now polls n c = nextDueLoop now polls n (c.remaining.toNat + 1) c := by
    unfold nextDue
    rw [if_neg (by simp [hsome]), if_neg (by simp [hleft.count])]
  obtain ⟨ys, hys, hrest, hout⟩ := nextDueLoop_left _ hleft hlen
  unfold nextDueAnswer
  rw [hloop]
  exact ⟨hout, ys, hys, hrest⟩

/-- A poll that `select` proposes is what the first `nextDue` proposes. -/
theorem select_poll {p : PollPlanner} {forwardReady : Bool} {selection : PollSelection}
    (h : p.select now forwardReady polls n state = (.selected, selection)) (hkind : selection.kind = .poll) :
    (nextDueAnswer now polls n (beginPollScan n state)).1 = (.due, selection) := by
  obtain ⟨status, cursor, found, hscan⟩ : ∃ status cursor found,
      nextDue now polls n (beginPollScan n state) = (status, cursor, found) := ⟨_, _, _, rfl⟩
  unfold select at h
  unfold nextDueAnswer
  simp only [hscan] at h ⊢
  split at h
  · cases h
  · split at h
    · cases h
    · split at h
      · cases h
        cases hkind
      · split at h
        · rename_i hstatus
          cases h
          rw [eq_of_beq hstatus]
        · split at h
          · cases h
            cases hkind
          · cases h

end PollPlanner

/-! ## Scans as machines -/

inductive PollCall where
  | next
  | commit (index count : UInt16) (now : UInt32)
deriving DecidableEq, Repr

inductive PollAnswer where
  | index (index : Option UInt16)
  | committed (ok : Bool)
deriving DecidableEq, Repr

/-- The call consumes one of `n` candidates. -/
def PollCall.Consumes (n : UInt16) : PollCall → Prop
  | .next => False
  | .commit index count _ => count = n ∧ index < n

/-- A scan with the index and the time it publishes. -/
structure Rotation where
  waiting : List UInt16
  published : UInt16 × UInt32

def Rotation.step (n : UInt16) (r : Rotation) : PollCall → PollAnswer × Rotation
  | .next => (.index r.waiting.head?, { r with waiting := r.waiting.tail })
  | .commit index count now =>
    if count = n ∧ index < n then
      (.committed true, { r with published := (UInt16.ofNat ((index.toNat + 1) % n.toNat), now) })
    else (.committed false, r)

/-- A caller of the planner: its persistent state and the cursor of its scan. -/
structure PlannerScan where
  state : PollPlannerState
  cursor : PollScanCursor

namespace PlannerScan

def begin (n : UInt16) (state : PollPlannerState) : PlannerScan := ⟨state, PollPlanner.beginPollScan n state⟩

def published (s : PlannerScan) : UInt16 × UInt32 := (s.state.nextPollIndex, s.state.lastPollAt)

def step (n : UInt16) (s : PlannerScan) : PollCall → PollAnswer × PlannerScan
  | .next =>
    let (index, cursor) := PollPlanner.nextIndex s.cursor
    (.index index, { s with cursor })
  | .commit index count now =>
    let (ok, state) := PollPlanner.commit (.fromCandidateSet .poll index n) count now s.state
    (.committed ok, { s with state })

/-- The scan is where the rotation is. -/
def Follows (n : UInt16) (s : PlannerScan) (r : Rotation) : Prop :=
  PollPlanner.Left n s.cursor r.waiting ∧ s.published = r.published

theorem step_follows (hn : n ≠ 0) (s : PlannerScan) (r : Rotation) (call : PollCall) (h : s.Follows n r) :
    (s.step n call).1 = (r.step n call).1 ∧ (s.step n call).2.Follows n (r.step n call).2 := by
  obtain ⟨hleft, hpublished⟩ := h
  cases call with
  | next =>
    obtain ⟨hout, hnext⟩ := PollPlanner.nextIndex_left hleft
    exact ⟨congrArg PollAnswer.index hout, hnext, hpublished⟩
  | commit index count now =>
    simp only [step, Rotation.step, PollPlanner.commit_bound hn]
    by_cases hok : count = n ∧ index < n
    · have hin := UInt16.lt_iff_toNat_lt.1 hok.2
      have hafter : (if index + 1 = n then 0 else index + 1) = UInt16.ofNat ((index.toNat + 1) % n.toNat) := by
        rw [← RoundRobin.after_eq_mod hin, ← PollPlanner.toNat_after hin, UInt16.ofNat_toNat]
      rw [if_pos hok, if_pos hok, hafter]
      exact ⟨rfl, hleft, rfl⟩
    · rw [if_neg hok, if_neg hok]
      exact ⟨rfl, hleft, hpublished⟩

end PlannerScan

namespace PollIndexScan

def published (s : PollIndexScan) : UInt16 × UInt32 := (s.nextPollIndex, s.lastPollAt)

def step (s : PollIndexScan) : PollCall → PollAnswer × PollIndexScan
  | .next =>
    let (index, s) := s.next
    (.index index, s)
  | .commit index count now =>
    let (ok, s) := s.commitConsumed index count now
    (.committed ok, s)

/-- The wrapper is a planner's scan with the count it was made for. -/
def Follows (n : UInt16) (s : PollIndexScan) (r : Rotation) : Prop :=
  s.candidateCount = n ∧ PlannerScan.Follows n ⟨s.state, s.scan⟩ r

theorem step_follows (hn : n ≠ 0) (s : PollIndexScan) (r : Rotation) (call : PollCall) (h : s.Follows n r) :
    (s.step call).1 = (r.step n call).1 ∧ (s.step call).2.Follows n (r.step n call).2 := by
  obtain ⟨rfl, hfollows⟩ := h
  obtain ⟨hout, hnext⟩ := PlannerScan.step_follows hn _ r call hfollows
  cases call with
  | next => exact ⟨hout, rfl, hnext⟩
  | commit index count now => exact ⟨hout, rfl, hnext⟩

theorem published_eq {s : PollIndexScan} {r : Rotation} (h : s.Follows n r) : s.published = r.published := h.2.2

/-- The constructor normalises an out-of-range index as the scan does. -/
theorem create_follows (hn : n ≠ 0) (state : PollPlannerState) :
    Follows n (create n state.nextPollIndex state.lastPollAt)
      ⟨rotation n state, UInt16.ofNat (PollPlanner.scanStart n state), state.lastPollAt⟩ := by
  generalize hs : create n state.nextPollIndex state.lastPollAt = s
  have hidx : s.state.nextPollIndex = UInt16.ofNat (PollPlanner.scanStart n state) := by
    rw [← hs]
    unfold create PollPlanner.scanStart
    by_cases hlt : state.nextPollIndex < n
    · simp [hlt, hn]
    · simp [hlt]
  have hstart : PollPlanner.scanStart n s.state = PollPlanner.scanStart n state := by
    have hlt := PollPlanner.scanStart_lt hn state
    have hnlt := n.toNat_lt
    have hnat : s.state.nextPollIndex.toNat = PollPlanner.scanStart n state := by
      rw [hidx, UInt16.toNat_ofNat_of_lt' (by simp only [UInt16.size]; omega)]
    rw [← hnat]
    exact if_pos (UInt16.lt_iff_toNat_lt.2 (by rw [hnat]; exact hlt))
  have hleft := PollPlanner.begin_left hn s.state
  unfold rotation at hleft
  rw [hstart] at hleft
  have hscan : s.scan = PollPlanner.beginPollScan n s.state := by rw [← hs]; rfl
  have htime : s.state.lastPollAt = state.lastPollAt := by rw [← hs]; rfl
  refine ⟨by rw [← hs]; rfl, ?_, Prod.ext hidx htime⟩
  rw [← hscan] at hleft
  exact hleft

end PollIndexScan

/-! ## Publication -/

/-- **What a scan publishes** over any calls: it answers and publishes as the rotation does, a consumed
candidate publishes the index after it and the time of the commit, and calls that consume none publish
nothing. -/
structure Publishes {S : Type} (step : S → PollCall → PollAnswer × S) (published : S → UInt16 × UInt32) (n : UInt16)
    (s : S) (r : Rotation) : Prop where
  runs : ∀ calls, (Machine.trace step s calls).map Machine.Event.output =
      (Machine.trace (Rotation.step n) r calls).map Machine.Event.output ∧
    published (Machine.final step s calls) = (Machine.final (Rotation.step n) r calls).published
  consumed : ∀ calls index now, index < n → published (Machine.final step s (calls ++ [.commit index n now])) =
    (UInt16.ofNat ((index.toNat + 1) % n.toNat), now)
  kept : ∀ calls refused, (∀ call ∈ refused, ¬ PollCall.Consumes n call) →
    published (Machine.final step s (calls ++ refused)) = published (Machine.final step s calls)

theorem Rotation.final_kept {calls : List PollCall} (h : ∀ call ∈ calls, ¬ PollCall.Consumes n call)
    (r : Rotation) : (Machine.final (Rotation.step n) r calls).published = r.published := by
  induction calls generalizing r with
  | nil => rfl
  | cons call calls ih =>
    rw [Machine.final_cons, ih fun c hc => h c (List.mem_cons_of_mem _ hc)]
    cases call with
    | next => rfl
    | commit index count now =>
      have hrefused : ¬ (count = n ∧ index < n) := h _ List.mem_cons_self
      simp only [Rotation.step, if_neg hrefused]

/-- A scan that follows a rotation publishes as it does. -/
theorem publishes_of {S : Type} {step : S → PollCall → PollAnswer × S} {published : S → UInt16 × UInt32}
    {R : S → Rotation → Prop} (hpublished : ∀ s r, R s r → published s = r.published)
    (hstep : ∀ s r call, R s r → (step s call).1 = (r.step n call).1 ∧ R (step s call).2 (r.step n call).2) {s : S}
    {r : Rotation} (h : R s r) : Publishes step published n s r := by
  have hruns := Machine.refines hstep h
  have hfinal : ∀ calls, published (Machine.final step s calls) = (Machine.final (Rotation.step n) r calls).published :=
    fun calls => hpublished _ _ (hruns calls).2
  refine ⟨fun calls => ⟨(hruns calls).1, hfinal calls⟩, ?_, ?_⟩
  · intro calls index now hindex
    rw [hfinal, Machine.final_append, Machine.final_cons, Machine.final_nil, Rotation.step, if_pos ⟨rfl, hindex⟩]
  · intro calls refused hrefused
    rw [hfinal, hfinal, Machine.final_append, Rotation.final_kept hrefused]

/-! ## All scan paths -/

/-- **What the scan paths promise** for `n` candidates. -/
structure ScansAgree (n : UInt16) (state : PollPlannerState) (candidates : Nat → PollCandidate) (time : Int)
    (deadline : Nat → Int) : Prop where
  /-- Every candidate is in the scan order, once. -/
  order : (rotation n state).Nodup ∧ ∀ i, i ∈ rotation n state ↔ i < n
  /-- `nextIndex` hands it out, and then nothing for ever. -/
  planner : ∀ k, Machine.answer PollPlanner.nextIndex (PollPlanner.beginPollScan n state) k = (rotation n state)[k]?
  /-- So does the wrapper. -/
  wrapper : ∀ k, Machine.answer PollIndexScan.next (.create n state.nextPollIndex state.lastPollAt) k =
    (rotation n state)[k]?
  /-- `nextDue` hands out those that are due. -/
  due : ∀ k, Machine.answer (PollPlanner.nextDueAnswer (UInt32.ofInt time) (some candidates) n)
    (PollPlanner.beginPollScan n state) k = dueAnswer n (dueOrder n state candidates time deadline)[k]?
  /-- A poll that is selected is the first of them. -/
  selected : ∀ (p : PollPlanner) (forwardReady : Bool) (selection : PollSelection),
    p.select (UInt32.ofInt time) forwardReady (some candidates) n state = (.selected, selection) →
    selection.kind = .poll → ∃ i, (dueOrder n state candidates time deadline).head? = some i ∧ selection = .fromCandidateSet .poll i n
  /-- Both APIs publish alike, the wrapper from the index its constructor normalised. -/
  planner_publishes : Publishes (PlannerScan.step n) PlannerScan.published n (.begin n state)
    ⟨rotation n state, state.nextPollIndex, state.lastPollAt⟩
  wrapper_publishes : Publishes PollIndexScan.step PollIndexScan.published n
    (.create n state.nextPollIndex state.lastPollAt)
    ⟨rotation n state, UInt16.ofNat (PollPlanner.scanStart n state), state.lastPollAt⟩

/-- The deadlines are met as in unbounded time. -/
theorem dueOrder_eq (hn : n ≠ 0) (state : PollPlannerState) {candidates : Nat → PollCandidate} {time : Int}
    {deadline : Nat → Int} (hnear : ∀ i < n.toNat, (time - deadline i).natAbs < 2 ^ 31)
    (hdue : ∀ i < n.toNat, (candidates i).dueAt = UInt32.ofInt (deadline i)) :
    (rotation n state).filter (PollPlanner.isDue (UInt32.ofInt time) (some candidates)) =
      dueOrder n state candidates time deadline := by
  apply List.filter_congr
  intro i hi
  have hlt := UInt16.lt_iff_toNat_lt.1 ((mem_rotation hn).1 hi)
  have hiff := pollDeadlineReached32_iff (hnear _ hlt)
  rw [← hdue _ hlt] at hiff
  unfold PollPlanner.isDue
  rw [Storage.at_some]
  congr 1
  rw [Bool.eq_iff_iff, hiff, decide_eq_true_eq]

/-- **All scan paths agree.** With true times and deadlines less than 2^31 apart, passed modulo 2^32, the
planner and the wrapper go round all candidates from the persistent index, the due scan stops at
exactly the enabled ones whose deadline has come, and both publish what a commit consumes. -/
theorem poll_scans_agree (hn : n ≠ 0) (state : PollPlannerState) (candidates : Nat → PollCandidate)
    (time : Int) (deadline : Nat → Int) (hnear : ∀ i < n.toNat, (time - deadline i).natAbs < 2 ^ 31)
    (hdue : ∀ i < n.toNat, (candidates i).dueAt = UInt32.ofInt (deadline i)) :
    ScansAgree n state candidates time deadline := by
  have hbegin := PollPlanner.begin_left hn state
  have hwrapper := PollIndexScan.create_follows hn state
  have hscan : ∀ k, Machine.answer (PollPlanner.nextDueAnswer (UInt32.ofInt time) (some candidates) n)
      (PollPlanner.beginPollScan n state) k = dueAnswer n (dueOrder n state candidates time deadline)[k]? := by
    intro k
    refine Machine.answer_of_list (PollPlanner.nextDueAnswer_left rfl) ⟨_, hbegin, ?_⟩ k
    exact dueOrder_eq hn state hnear hdue
  refine ⟨⟨nodup_rotation hn, fun _ => mem_rotation hn⟩, ?_, ?_, hscan, ?_, ?_, ?_⟩
  · intro k
    exact Machine.answer_of_list (f := id) (fun _ _ => PollPlanner.nextIndex_left) hbegin k
  · intro k
    refine Machine.answer_of_list (f := id) (R := fun s xs => PollPlanner.Left n s.scan xs) ?_ hwrapper.2.1 k
    intro s xs h
    exact PollPlanner.nextIndex_left h
  · intro p forwardReady selection hsel hkind
    have hfirst := hscan 0
    rw [← List.head?_eq_getElem?] at hfirst
    have hpoll : Machine.answer _ _ 0 = (PollDueStatus.due, selection) := PollPlanner.select_poll hsel hkind
    rw [hpoll] at hfirst
    cases hhead : (dueOrder n state candidates time deadline).head? with
    | none =>
      rw [hhead] at hfirst
      cases hfirst
    | some i =>
      rw [hhead] at hfirst
      exact ⟨i, rfl, congrArg Prod.snd hfirst⟩
  · exact publishes_of (R := PlannerScan.Follows n) (fun _ _ h => h.2) (PlannerScan.step_follows hn) ⟨hbegin, rfl⟩
  · exact publishes_of (R := PollIndexScan.Follows n) (fun _ _ => PollIndexScan.published_eq)
      (PollIndexScan.step_follows hn) hwrapper

/-- Three deadlines around the rollover of the 32-bit clock. -/
def rolloverDeadline : Nat → Int
  | 0 => 4294967286
  | 1 => 4294967396
  | _ => 4294967301

def rolloverCandidates (i : Nat) : PollCandidate := { dueAt := UInt32.ofInt (rolloverDeadline i), enabled := true }

theorem poll_scans_agree_test :
    ScansAgree 3 { nextPollIndex := 1 } rolloverCandidates 4294967301 rolloverDeadline :=
  poll_scans_agree (by decide) _ _ _ _ (by decide) fun _ _ => rfl

end ModbusRTUBridge
