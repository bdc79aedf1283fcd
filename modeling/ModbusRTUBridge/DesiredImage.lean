import ModbusRTUBridge.DeviceImage
/-!
# The visible image shows what is queued

The guide has the caller capture a snapshot before it publishes the work, and restore the range of
a work that was given up once no newer one owns it. What the caller owes the visible image in
between stands in a `DesiredLog`: an address is astray from a capture until the captured work is
admitted, and from the end of a work that left it unapplied until a restore. Every other address
shows the queued works over the applied image.

| an address of the range | is astray when |
| --- | --- |
| a capture succeeds        | always |
| a restore succeeds        | a queued work covers it |
| a work is admitted        | the image does not hold the element of the work |
| a work leaves the queue   | no fragment over it was applied, and no queued work covers it |
-/

namespace ModbusRTUBridge

open CachedBridge (Input Output)
open Overlay
open StoreForwardBridge

/-! ## Layers -/

/-- The instance writes the upstream address of the table `t`. -/
def Instance.Over (i : Instance) (t : RegisterTable) (address : Nat) : Prop :=
  i.work.table = t ∧ i.work.start.toNat ≤ address ∧ address < i.work.start.toNat + i.work.count.toNat

instance (i : Instance) (t : RegisterTable) (address : Nat) : Decidable (i.Over t address) := by
  unfold Instance.Over; infer_instance

/-- Some fragment of the instance over the address was applied. -/
def Instance.Met (i : Instance) (t : RegisterTable) (address : Nat) : Prop :=
  ∃ x ∈ i.answers, x.Applied ∧ x.write.Covers t address

instance (i : Instance) (t : RegisterTable) (address : Nat) : Decidable (i.Met t address) := by
  unfold Instance.Met; infer_instance

/-- What an instance lays over an address. -/
def Instance.layer (Value : Type) [WorkTraits Value] (address : Nat) (i : Instance) : Option Value :=
  if i.Over (WorkTraits.table Value) address then some (i.value Value address) else none

/-- What the queued works lay over what was applied. -/
def desired (Value : Type) [WorkTraits Value] (queued : List Instance) (address : Nat) (applied : Value) : Value :=
  overlay (Instance.layer Value address) queued applied

/-- The instances a call released. -/
def Log.left (g : Log) (c : Call) (r : Res) : List Instance :=
  ((g.observe c r).released.drop g.released.length).map Prod.fst

/-! ## What the caller owes the visible image -/

/-- The request of an input to a cache. -/
def CachedBridge.Input.cacheOp : Input → Option (RegisterTable × CacheOp)
  | .coils op => some (.coils, op)
  | .holding op => some (.holdingRegisters, op)
  | _ => none

structure DesiredLog where
  cached : CacheLog := {}
  astray : Nat → Bool := fun _ => false

namespace DesiredLog

/-- After a request to the cache of table `t`. -/
def astrayMoved (t : RegisterTable) (queued : List Instance) (astray : Nat → Bool) : CacheOp → Nat → Bool
  | .captureDesired start _ count, k =>
    if start.toNat ≤ k ∧ k < start.toNat + count.toNat then true else astray k
  | .restore start count, k =>
    if start.toNat ≤ k ∧ k < start.toNat + count.toNat then decide (∃ i ∈ queued, i.Over t k) else astray k

variable (Value : Type) [CachedElement Value] [DecidableEq Value]

/-- After a call. -/
def astrayCalled (caches : Caches) (g : Log) (astray : Nat → Bool) (c : Call) (r : Res) (k : Nat) : Bool :=
  match admittedInstance c r with
  | some i =>
    if i.Over (WorkTraits.table Value) k then decide ((caches.of Value).visible.cell c.memory k ≠ i.value Value k)
    else astray k
  | none => astray k || decide (∃ i ∈ g.left c r, i.Over (WorkTraits.table Value) k ∧ ¬ i.Met (WorkTraits.table Value) k ∧
      ¬ ∃ j ∈ (g.observe c r).queued, j.Over (WorkTraits.table Value) k)

def observe (caches : Caches) (g : DesiredLog) (input : Input) (output : Output) : DesiredLog where
  cached := g.cached.observe input output
  astray :=
    match output, input.cacheOp with
    | .called c r, _ => astrayCalled Value caches g.cached.log g.astray c r
    | .moved true, some (t, op) =>
      if t = WorkTraits.table Value then astrayMoved t g.cached.log.queued g.astray op else g.astray
    | _, _ => g.astray

/-- At the start the two images may differ where they like; those addresses are astray. -/
def init (caches : Caches) (mem : Memory) : DesiredLog where
  astray k := decide ((caches.of Value).visible.cell mem k ≠ (caches.of Value).applied.cell mem k)

end DesiredLog

namespace CachedBridge

def desiredLog (Value : Type) [CachedElement Value] [DecidableEq Value] (caches : Caches) (s : CachedBridge)
    (inputs : List Input) : DesiredLog :=
  Machine.observe (DesiredLog.observe Value caches) (.init Value caches s.memory) (s.history caches inputs)

end CachedBridge

/-- What the proofs use of the requests to an element type's cache. -/
class LawfulRequest (Value : Type) [CachedElement Value] : Prop where
  cacheOp_request : ∀ op, (CachedElement.request Value op).cacheOp = some (WorkTraits.table Value, op)
  request_of_cacheOp : ∀ input op, input.cacheOp = some (WorkTraits.table Value, op) → input = CachedElement.request Value op

instance : LawfulRequest Bool where
  cacheOp_request _ := rfl
  request_of_cacheOp input op h := by cases input <;> cases h; rfl

instance : LawfulRequest UInt16 where
  cacheOp_request _ := rfl
  request_of_cacheOp input op h := by cases input <;> cases h; rfl

/-! ## The queue from call to call -/

section
variable {p : ForwardPlanner} {b : StoreForwardBridge} {g : Log} {c : Call} {r : Res}

theorem Log.release_released (g : Log) (how : Option Release) : ∃ xs, (g.release how).released = g.released ++ xs := by
  cases how with
  | none => exact ⟨[], (List.append_nil _).symm⟩
  | some how =>
    cases hq : g.queued with
    | nil => exact ⟨[], by simp [Log.release, hq]⟩
    | cons i is => exact ⟨[(i, how)], by rw [Log.release_some hq]⟩

theorem Log.observe_released (g : Log) (c : Call) (r : Res) : ∃ xs, (g.observe c r).released = g.released ++ xs := by
  by_cases hr : r = .reset true
  · subst hr
    exact ⟨_, rfl⟩
  · rw [Log.observe_eq hr]
    exact Log.release_released _ _

/-- What left and what is queued is what was queued, with the note of the call, and what joined. -/
theorem Log.left_append_queued (g : Log) (c : Call) (r : Res) : g.left c r ++ (g.observe c r).queued =
    (g.note (issuedWrite c r) (writeAnswer c r)).queued ++ (admittedInstance c r).toList := by
  obtain ⟨xs, hxs⟩ := g.observe_released c r
  have hleft : g.left c r = xs.map Prod.fst := by rw [Log.left, hxs, List.drop_left]
  have hall := g.instances_observe c r
  simp only [Log.instances, hxs, List.map_append, List.append_assoc] at hall
  rw [hleft]
  exact List.append_cancel_left hall

theorem Log.observe_admitted {i : Instance} (h : admittedInstance c r = some i) : g.observe c r = g.enqueue (some i) := by
  cases r with
  | admission a => simp [Log.observe, h, issuedWrite, writeAnswer, frontRelease]
  | _ => cases h

end

/-! ## One step -/

section
variable (Value : Type) [CachedElement Value] {p : ForwardPlanner} {caches : Caches} {mem₀ : Memory}
  {s : CachedBridge} {g : DesiredLog}

/-- Every address that is not astray shows the queued works over the applied image. -/
structure Shows (p : ForwardPlanner) (caches : Caches) (mem₀ : Memory) (s : CachedBridge) (g : DesiredLog) : Prop where
  mirrors : Mirrors Value p caches mem₀ s g.cached
  shows : ∀ k < (caches.of Value).visible.count.toNat, k < (caches.of Value).applied.count.toNat → g.astray k = false →
    (caches.of Value).visible.cell s.memory k =
      desired Value g.cached.log.queued k ((caches.of Value).applied.cell s.memory k)

variable {Value}

theorem Shows.drained (h : Shows Value p caches mem₀ s g) (hq : s.bridge.queue = []) {k : Nat}
    (hv : k < (caches.of Value).visible.count.toNat) (hk : k < (caches.of Value).applied.count.toNat)
    (hastray : g.astray k = false) :
    (caches.of Value).visible.cell s.memory k = (caches.of Value).applied.cell s.memory k := by
  have hqueued := h.mirrors.tracks.queued
  rw [hq] at hqueued
  rw [h.shows k hv hk hastray, hqueued.nil_inv]
  rfl

theorem layer_ne_none {i : Instance} {k : Nat} : i.layer Value k ≠ none ↔ i.Over (WorkTraits.table Value) k := by
  unfold Instance.layer
  split <;> simp [*]

theorem desired_append {xs ys : List Instance} {k : Nat} {v : Value} :
    desired Value (xs ++ ys) k v = desired Value ys k (desired Value xs k v) := overlay_append

theorem desired_cons {i : Instance} {is : List Instance} {k : Nat} {v : Value} :
    desired Value (i :: is) k v = desired Value is k ((i.layer Value k).getD v) := rfl

/-- Where no work is queued over an address the applied image shows. -/
theorem desired_bare {xs : List Instance} {k : Nat} (h : ¬ ∃ i ∈ xs, i.Over (WorkTraits.table Value) k) (v : Value) :
    desired Value xs k v = v :=
  overlay_clear fun i hi => if_neg fun hover => h ⟨i, hi, hover⟩

/-- A fragment over an address writes for a work over it. -/
theorem Slice.over {i : Instance} {w : PlannedWriteRequest} (h : Slice i w) {t : RegisterTable} {k : Nat}
    (hcov : w.Covers t k) : i.Over t k := by
  obtain ⟨ht, hlo, hhi⟩ := hcov
  have hstart := h.start
  have hwithin := h.within
  exact ⟨h.table.symm.trans ht, by omega, by omega⟩

/-- **What a fragment of the last work with answers applied** is what the applied image holds. -/
theorem Mirrors.met {l : CacheLog} (h : Mirrors Value p caches mem₀ s l) {pre post : List Instance} {i : Instance}
    (hall : l.log.instances = pre ++ i :: post) (hpost : ∀ j ∈ post, j.answers = []) {k : Nat}
    (hk : k < (caches.of Value).applied.count.toNat) (hmet : i.Met (WorkTraits.table Value) k) :
    (caches.of Value).applied.cell s.memory k = i.value Value k := by
  have hlater : post.flatMap Instance.pieces = [] := by
    rw [List.flatMap_eq_nil_iff]
    intro j hj
    simp [Instance.pieces, hpost j hj]
  obtain ⟨x, hx, happlied, hcov⟩ := hmet
  rw [h.applied k hk, h.pieces, hall, List.flatMap_append, List.flatMap_cons, hlater, List.append_nil, carried_append]
  refine carried_agree (fun y hy => ?_) ⟨(i.origin, x.write), ?_, hcov⟩
  · obtain ⟨_, _, rfl⟩ := List.mem_map.1 hy
    rfl
  · exact List.mem_map_of_mem (List.mem_filter.2 ⟨hx, decide_eq_true happlied⟩)

variable [LawfulElement Value]

/-- A call spares the visible image, and what no write it completed as applied covers. -/
theorem exec_call_spares (hfit : (caches.of Value).Fits p.routes (WorkTraits.table Value)) (hs : s.bridge.Coherent)
    (op : Op) :
    (caches.of Value).visible.Same s.memory (CachedBridge.exec caches s (.call op)).2.memory ∧
    ∀ k < (caches.of Value).applied.count.toNat,
      (∀ w, appliedWrite ⟨s.memory, op⟩ (s.bridge.exec ⟨s.memory, op⟩).1 = some w → ¬ w.Covers (WorkTraits.table Value) k) →
      (caches.of Value).applied.cell (CachedBridge.exec caches s (.call op)).2.memory k =
        (caches.of Value).applied.cell s.memory k := by
  have heffect := exec_effect Value caches hs (.call op) nofun
  have hout : (CachedBridge.exec caches s (.call op)).1 = .called ⟨s.memory, op⟩ (s.bridge.exec ⟨s.memory, op⟩).1 := rfl
  generalize (s.bridge.exec ⟨s.memory, op⟩).1 = r at *
  generalize CachedBridge.exec caches s (.call op) = next at *
  generalize hinput : Input.call op = input at heffect
  obtain ⟨out, s'⟩ := next
  cases heffect with
  | moved op' => cases hout
  | @marked op' r' b w hs hw ht =>
    cases hinput
    cases hout
    refine ⟨MutableImageView.copyFrom_apart hfit.apart.symm _ _ _, fun k hk hnone => ?_⟩
    show (caches.of Value).applied.cell
      ((caches.of Value).applied.copyFrom s.memory w.upstreamStart w.payload w.quantity).2 k = _
    rcases (caches.of Value).applied.copyFrom_cases s.memory w.upstreamStart w.payload w.quantity with
      ⟨heq, _⟩ | ⟨_, _, _, hcopied⟩
    · rw [heq]
    · exact hcopied.outside fun hin => hnone w hw ⟨ht, MutableImageView.within_span.1 hin⟩
  | same _ hv ha => exact ⟨hv, fun k hk _ => ha k hk⟩

omit [LawfulElement Value] in
/-- **Works leave.** Over an address that each of them met, or that a queued work covers, the same
shows as before, if the value below becomes that of the front work where it met it, and changes nowhere else. -/
theorem desired_left {left queued is : List Instance} {i : Instance} (hqueue : left ++ queued = i :: is)
    (htail : ∀ j ∈ is, j.answers = []) {k : Nat} {v v' : Value}
    (hmet : ∀ j ∈ left, j.Over (WorkTraits.table Value) k →
      j.Met (WorkTraits.table Value) k ∨ ∃ j ∈ queued, j.Over (WorkTraits.table Value) k)
    (hfront : i.Met (WorkTraits.table Value) k → v' = i.value Value k)
    (hrest : ¬ i.Over (WorkTraits.table Value) k → v' = v) :
    desired Value (i :: is) k v = desired Value queued k v' := by
  rw [← hqueue, desired_append]
  by_cases hcov : ∃ j ∈ queued, j.Over (WorkTraits.table Value) k
  · obtain ⟨j, hj, hover⟩ := hcov
    exact overlay_covered ⟨j, hj, layer_ne_none.2 hover⟩ _ _
  rw [desired_bare hcov, desired_bare hcov]
  cases left with
  | nil =>
    rw [List.nil_append] at hqueue
    exact (hrest fun hover => hcov ⟨i, by rw [hqueue]; exact List.mem_cons_self, hover⟩).symm
  | cons j left =>
    obtain ⟨rfl, rfl⟩ := List.cons.inj hqueue
    -- behind the front nothing was met
    have hbare : ¬ ∃ x ∈ left, x.Over (WorkTraits.table Value) k := by
      rintro ⟨x, hx, hover⟩
      obtain ⟨y, hy, _⟩ := (hmet x (List.mem_cons_of_mem _ hx) hover).resolve_right hcov
      rw [htail x (List.mem_append_left _ hx)] at hy
      cases hy
    rw [desired_cons, desired_bare hbare]
    by_cases hover : j.Over (WorkTraits.table Value) k
    · rw [hfront ((hmet j List.mem_cons_self hover).resolve_right hcov), Instance.layer, if_pos hover]
      rfl
    · rw [hrest hover, Instance.layer, if_neg hover]
      rfl

/-- A call that admits nothing keeps what the addresses show that are not astray then. -/
theorem Shows.unjoined (hfit : (caches.of Value).Fits p.routes (WorkTraits.table Value)) (h : Shows Value p caches mem₀ s g)
    {op : Op} {r : Res} (hr : (s.bridge.exec ⟨s.memory, op⟩).1 = r) {s' : CachedBridge}
    (hs' : (CachedBridge.exec caches s (.call op)).2 = s')
    (hmirrors : Mirrors Value p caches mem₀ s' (g.cached.observe (.call op) (.called ⟨s.memory, op⟩ r)))
    (hnone : admittedInstance ⟨s.memory, op⟩ r = none) {k : Nat} (hk : k < (caches.of Value).applied.count.toNat)
    (hmet : ∀ i ∈ g.cached.log.left ⟨s.memory, op⟩ r, i.Over (WorkTraits.table Value) k →
      i.Met (WorkTraits.table Value) k ∨
        ∃ j ∈ (g.cached.log.observe ⟨s.memory, op⟩ r).queued, j.Over (WorkTraits.table Value) k) :
    desired Value g.cached.log.queued k ((caches.of Value).applied.cell s.memory k) =
      desired Value (g.cached.log.observe ⟨s.memory, op⟩ r).queued k ((caches.of Value).applied.cell s'.memory k) := by
  have htracks := h.mirrors.tracks
  have hstep := exec_step htracks.coherent ⟨s.memory, op⟩
  have hspares := (exec_call_spares hfit htracks.coherent op).2 k hk
  have hqueue := g.cached.log.left_append_queued ⟨s.memory, op⟩ r
  have hinstances := g.cached.log.instances_observe ⟨s.memory, op⟩ r
  rw [hr] at hspares hstep
  rw [hs'] at hspares
  rw [hnone, Option.toList_none, List.append_nil] at hqueue hinstances
  cases hq : g.cached.log.queued with
  | nil =>
    rw [Log.note, hq, List.modifyHead_nil, List.append_eq_nil_iff] at hqueue
    rw [hqueue.2]
    refine (hspares fun w hw => ?_).symm
    obtain ⟨i, hi, _⟩ := htracks.applied_slice hstep hw
    rw [hq] at hi
    cases hi
  | cons i is =>
    rw [Log.note, hq] at hqueue
    have htail : ∀ j ∈ is, j.answers = [] := fun j hj => (htracks.tail_empty j (by rw [hq]; exact hj)).2
    -- the note does not show
    have hall := hinstances.trans (Log.instances_note_cons hq)
    refine desired_left hqueue htail hmet (hmirrors.met hall htail hk) fun hover => ?_
    refine hspares fun w hw hcovers => hover ?_
    obtain ⟨i', hi', _, hslice⟩ := htracks.applied_slice hstep hw
    rw [hq] at hi'
    cases hi'
    exact hslice.over hcovers

variable [DecidableEq Value]

/-- **Every call** keeps what is not astray. -/
theorem Shows.call (hfit : (caches.of Value).Fits p.routes (WorkTraits.table Value)) (h : Shows Value p caches mem₀ s g)
    {op : Op} (hm : CachedBridge.Honest caches s g.cached (.call op)) :
    Shows Value p caches mem₀ (CachedBridge.exec caches s (.call op)).2
      (g.observe Value caches (.call op) (CachedBridge.exec caches s (.call op)).1) := by
  have hmirrors := h.mirrors.step hfit hm
  refine ⟨hmirrors, fun k hv hk hastray => ?_⟩
  obtain ⟨hvisible, happlied⟩ := exec_call_spares hfit h.mirrors.tracks.coherent op
  rw [hvisible k hv]
  change DesiredLog.astrayCalled Value caches g.cached.log g.astray ⟨s.memory, op⟩ (s.bridge.exec ⟨s.memory, op⟩).1 k = false
    at hastray
  show _ = desired Value (g.cached.log.observe ⟨s.memory, op⟩ (s.bridge.exec ⟨s.memory, op⟩).1).queued k _
  unfold DesiredLog.astrayCalled at hastray
  cases ha : admittedInstance ⟨s.memory, op⟩ (s.bridge.exec ⟨s.memory, op⟩).1 with
  | some i =>
    rw [ha] at hastray
    rw [Log.observe_admitted ha]
    show _ = desired Value (g.cached.log.queued ++ [i]) k _
    rw [desired_append]
    by_cases hover : i.Over (WorkTraits.table Value) k
    · -- the work shows what was captured for it
      simp only [if_pos hover, decide_eq_false_iff_not, not_not] at hastray
      rw [hastray, desired_cons, Instance.layer, if_pos hover]
      rfl
    · simp only [if_neg hover] at hastray
      have hunapplied : appliedWrite ⟨s.memory, op⟩ (s.bridge.exec ⟨s.memory, op⟩).1 = none := by
        rcases noted_or_admitted ⟨s.memory, op⟩ (s.bridge.exec ⟨s.memory, op⟩).1 with hno | ⟨_, hno⟩
        · rw [ha] at hno
          cases hno
        · rw [appliedWrite, hno]
          rfl
      rw [h.shows k hv hk hastray, happlied k hk (by simp [hunapplied]), desired_cons, Instance.layer, if_neg hover]
      rfl
  | none =>
    simp only [ha, Bool.or_eq_false_iff, decide_eq_false_iff_not] at hastray
    obtain ⟨hbefore, hleft⟩ := hastray
    rw [h.shows k hv hk hbefore]
    refine h.unjoined hfit rfl rfl hmirrors ha hk fun i hi hover => ?_
    by_contra hno
    simp only [not_or] at hno
    exact hleft ⟨i, hi, hover, hno.1, hno.2⟩

variable [LawfulRequest Value]

/-- **Every request** of the caller keeps what is not astray. -/
theorem Shows.moved (hfit : (caches.of Value).Fits p.routes (WorkTraits.table Value)) (h : Shows Value p caches mem₀ s g)
    (op : CacheOp) (hm : CachedBridge.Honest caches s g.cached (CachedElement.request Value op)) :
    Shows Value p caches mem₀ (CachedBridge.exec caches s (CachedElement.request Value op)).2
      (g.observe Value caches (CachedElement.request Value op)
        (CachedBridge.exec caches s (CachedElement.request Value op)).1) := by
  have hmirrors := h.mirrors.step hfit hm
  rw [LawfulElement.requested] at hmirrors ⊢
  refine ⟨hmirrors, fun k hv hk hastray => ?_⟩
  show (caches.of Value).visible.cell (op.perform (caches.of Value) s.memory).2 k =
    desired Value g.cached.log.queued k ((caches.of Value).applied.cell (op.perform (caches.of Value) s.memory).2 k)
  have happlied : (caches.of Value).applied.cell (op.perform (caches.of Value) s.memory).2 k =
      (caches.of Value).applied.cell s.memory k := by
    rcases op.perform_copies (caches.of Value) s.memory with heq | ⟨start, source, count, heq⟩
    · rw [heq]
    · rw [heq]
      exact MutableImageView.copyFrom_apart hfit.apart start source count k hk
  simp only [DesiredLog.observe, LawfulRequest.cacheOp_request] at hastray
  cases op with
  | captureDesired start snapshot count =>
    rcases (caches.of Value).captureDesired_spec s.memory start snapshot count with heq | ⟨htrue, hcells⟩
    · simp only [CacheOp.perform, heq] at hastray ⊢
      exact h.shows k hv hk hastray
    · simp only [CacheOp.perform, htrue, if_true, DesiredLog.astrayMoved] at hastray happlied ⊢
      rw [happlied, hcells]
      split at hastray
      · cases hastray
      · rename_i hout
        rw [if_neg hout]
        exact h.shows k hv hk hastray
  | restore start count =>
    rcases DesiredAppliedCache.restore_spec s.memory hfit.apart start count with heq | ⟨htrue, hcells⟩
    · simp only [CacheOp.perform, heq] at hastray ⊢
      exact h.shows k hv hk hastray
    · simp only [CacheOp.perform, htrue, if_true, DesiredLog.astrayMoved] at hastray happlied ⊢
      rw [hcells]
      split at hastray
      · -- no work is queued over the address
        rename_i hin
        rw [if_pos hin, desired_bare (of_decide_eq_false hastray)]
      · rename_i hout
        rw [if_neg hout, happlied]
        exact h.shows k hv hk hastray

/-- What is not about this element type changes nothing. -/
theorem Shows.other (hfit : (caches.of Value).Fits p.routes (WorkTraits.table Value)) (h : Shows Value p caches mem₀ s g)
    {input : Input} (hm : CachedBridge.Honest caches s g.cached input) (hcall : ∀ op, input ≠ .call op)
    (hreq : ∀ op, input ≠ CachedElement.request Value op) : Shows Value p caches mem₀ (CachedBridge.exec caches s input).2
      (g.observe Value caches input (CachedBridge.exec caches s input).1) := by
  have hmirrors := h.mirrors.step hfit hm
  have heffect := exec_effect Value caches h.mirrors.tracks.coherent input fun mem he => by
    subst he
    exact hm.2
  have hout : ∀ c r, (CachedBridge.exec caches s input).1 ≠ .called c r := by
    intro c r
    cases input with
    | call op => exact absurd rfl (hcall op)
    | _ => exact nofun
  have hkept : ∀ out : Output, (∀ c r, out ≠ .called c r) →
      (g.observe Value caches input out).cached.log.queued = g.cached.log.queued ∧
      (g.observe Value caches input out).astray = g.astray := by
    intro out hno
    cases out with
    | called c r => exact absurd rfl (hno c r)
    | stored => exact ⟨rfl, rfl⟩
    | moved done =>
      refine ⟨rfl, ?_⟩
      unfold DesiredLog.observe
      cases hop : input.cacheOp with
      | none => cases done <;> rfl
      | some x =>
        obtain ⟨t, op⟩ := x
        have ht : t ≠ WorkTraits.table Value := fun e => hreq op (LawfulRequest.request_of_cacheOp input op (by rw [hop, e]))
        cases done with
        | false => rfl
        | true => exact if_neg ht
  obtain ⟨hqueued, hastray⟩ := hkept _ hout
  generalize CachedBridge.exec caches s input = next at *
  obtain ⟨out, s'⟩ := next
  cases heffect with
  | moved op => exact absurd rfl (hreq op)
  | marked => exact absurd rfl (hcall _)
  | same _ hv ha =>
    refine ⟨hmirrors, fun k hk hk' hk'' => ?_⟩
    rw [hastray] at hk''
    rw [hv k hk, ha k hk', hqueued]
    exact h.shows k hk hk' hk''

/-- **Every step** keeps what is not astray. -/
theorem Shows.step (hfit : (caches.of Value).Fits p.routes (WorkTraits.table Value)) {input : Input}
    (hm : CachedBridge.Honest caches s g.cached input) (h : Shows Value p caches mem₀ s g) :
    Shows Value p caches mem₀ (CachedBridge.exec caches s input).2
      (g.observe Value caches input (CachedBridge.exec caches s input).1) := by
  by_cases hreq : ∃ op, input = CachedElement.request Value op
  · obtain ⟨op, rfl⟩ := hreq
    exact h.moved hfit op hm
  by_cases hcall : ∃ op, input = .call op
  · obtain ⟨op, rfl⟩ := hcall
    exact h.call hfit hm
  · exact h.other hfit hm (fun op e => hcall ⟨op, e⟩) fun op e => hreq ⟨op, e⟩

/-! ## Every run -/

omit [LawfulElement Value] [LawfulRequest Value] in
theorem Shows.init (hb : s.bridge.Deployed) (caches : Caches) :
    Shows Value s.bridge.forwardPlanner caches s.memory s (.init Value caches s.memory) :=
  ⟨.init hb caches, fun _ _ _ h => Decidable.not_not.1 (of_decide_eq_false h)⟩

theorem run_shows (hb : s.bridge.Deployed)
    (hfit : (caches.of Value).Fits s.bridge.forwardPlanner.routes (WorkTraits.table Value))
    {inputs : List Input} (hm : s.Keeps caches inputs) :
    Shows Value s.bridge.forwardPlanner caches s.memory (s.run caches inputs) (s.desiredLog Value caches inputs) :=
  Machine.simulates_final_of (CachedBridge.exec caches) (fun _ _ _ hok h => h.step hfit hok) (.init hb caches)
    (Machine.Meets.enrich (CachedBridge.exec caches) (ρ := DesiredLog.cached) (fun _ _ _ => rfl) hm)

/-- The images of one element type after a run. -/
structure VisibleExact (Value : Type) [CachedElement Value] [DecidableEq Value] (caches : Caches) (s : CachedBridge)
    (inputs : List Input) : Prop where
  /-- The visible image shows the queued works over the applied image. -/
  shows : ∀ k < (caches.of Value).visible.count.toNat, k < (caches.of Value).applied.count.toNat →
    (s.desiredLog Value caches inputs).astray k = false → (caches.of Value).visible.cell (s.run caches inputs).memory k =
      desired Value (s.log caches inputs).log.queued k ((caches.of Value).applied.cell (s.run caches inputs).memory k)
  /-- With nothing queued it shows the applied image. -/
  drained : (s.run caches inputs).bridge.queue = [] → ∀ k < (caches.of Value).visible.count.toNat,
    k < (caches.of Value).applied.count.toNat → (s.desiredLog Value caches inputs).astray k = false →
    (caches.of Value).visible.cell (s.run caches inputs).memory k =
      (caches.of Value).applied.cell (s.run caches inputs).memory k

theorem visible_exact (hb : s.bridge.Deployed)
    (hfit : (caches.of Value).Fits s.bridge.forwardPlanner.routes (WorkTraits.table Value)) {inputs : List Input}
    (hm : s.Keeps caches inputs) : VisibleExact Value caches s inputs := by
  have h := run_shows hb hfit hm
  have hlog : (s.desiredLog Value caches inputs).cached = s.log caches inputs :=
    Machine.observe_map (ρ := DesiredLog.cached) (fun _ _ _ => rfl) _ _
  refine ⟨fun k hv hk hastray => ?_, fun hq k hv hk hastray => h.drained hq hv hk hastray⟩
  rw [← hlog]
  exact h.shows k hv hk hastray

end

/-- **The visible image shows what is desired.** The caches reach over every routed address, each with
two images that are apart (`Fits`). In every run whose caller leaves queued snapshots as they were at
admission and writes the images only through their caches (`Keeps`), each address that is not astray
shows the element of the last queued work over it, and where there is none what the applied image
holds. -/
theorem visible_image_shows_desired {caches : Caches} {s : CachedBridge} (hb : s.bridge.Deployed)
    (hcoils : caches.coils.Fits s.bridge.forwardPlanner.routes .coils)
    (hholding : caches.holding.Fits s.bridge.forwardPlanner.routes .holdingRegisters) (inputs : List Input)
    (hm : s.Keeps caches inputs) : VisibleExact Bool caches s inputs ∧ VisibleExact UInt16 caches s inputs :=
  ⟨visible_exact hb hcoils hm, visible_exact hb hholding hm⟩

/-- Both works of the test are captured and admitted; the first is forwarded, the second given up. -/
def testDesires : List Input :=
  .holding (.captureDesired 100 ⟨1, 0⟩ 4) :: .holding (.captureDesired 100 ⟨2, 0⟩ 1) ::
    (testCalls 2).map (fun c => .call c.op) ++ [.call .abandonFront]

theorem visible_image_shows_desired_test :
    VisibleExact UInt16 testCaches ⟨testBridge, testMemory⟩ testDesires ∧
    (List.range' 100 4).map (CachedBridge.desiredLog UInt16 testCaches ⟨testBridge, testMemory⟩ testDesires).astray =
      [true, false, false, false] ∧
    (List.range' 100 4).map (CachedBridge.desiredLog UInt16 testCaches ⟨testBridge, testMemory⟩
      (testDesires ++ [.holding (.restore 100 1)])).astray = [false, false, false, false] :=
  ⟨(visible_image_shows_desired (s := ⟨testBridge, testMemory⟩) testBridge_deployed
      ⟨by decide, by decide +kernel, by decide +kernel⟩ ⟨by decide, by decide +kernel, by decide +kernel⟩ testDesires
      (by decide +kernel)).2, by decide +kernel, by decide +kernel⟩

/-! ## Through to the devices -/

/-- What an input of a gateway is to the facade and the caches. -/
def Gateway.Input.facadeInput : Gateway.Input → Option CachedBridge.Input
  | .facade input => some input
  | .attempt _ _ => none

section
variable {σ Result : Type} {caches : Caches} {written : σ → List ElementWrite} {s : Gateway σ}
  {master : Memory → ModbusRTUMaster σ Result} {codes : ModbusRTUMasterResultCodes Result} {inputs : List Gateway.Input}

/-- A gateway run is a run of its facade and caches. -/
theorem Gateway.cached_run (hm : s.Keeps caches master codes inputs) :
    s.cached.Keeps caches (inputs.filterMap Gateway.Input.facadeInput) ∧
    (s.run caches master codes inputs).cached = s.cached.run caches (inputs.filterMap Gateway.Input.facadeInput) := by
  refine Machine.Meets.project (π := Gateway.cached) (ρ := Gateway.Log.cached) ?_ ?_ ?_ hm
  · intro s g i hi
    cases i with
    | attempt a reaches => cases reaches <;> exact ⟨rfl, rfl⟩
    | facade input => cases hi
  · intro s g i j hi
    cases i with
    | attempt a reaches => cases hi
    | facade input =>
      cases hi
      exact ⟨rfl, g.observe_cached _ _⟩
  · intro s g i j hi hok
    cases i with
    | attempt a reaches => cases hi
    | facade input =>
      cases hi
      exact hok.1

/-- The devices hold what upstream reads, at every address of its own that is not astray. -/
def UpstreamAgrees (Value : Type) [DeviceElement Value] (caches : Caches) (written : σ → List ElementWrite)
    (s s' : Gateway σ) (astray : Nat → Bool) : Prop :=
  ∀ address route, s.cached.bridge.forwardPlanner.routes.Owns (WorkTraits.table Value) address route →
    s.cached.bridge.forwardPlanner.routes.Alone (WorkTraits.table Value) address →
    address < (caches.of Value).visible.count.toNat → astray address = false →
    held Value (written s'.devices) (s.cached.bridge.forwardPlanner.routes.place (WorkTraits.table Value) route address)
      ((caches.of Value).applied.cell s.cached.memory address) = (caches.of Value).visible.cell s'.cached.memory address

theorem run_upstreamAgrees {Value : Type} [DeviceElement Value] [LawfulElement Value] [LawfulDevice Value]
    [LawfulRequest Value] [DecidableEq Value] (hmaster : ∀ mem, (master mem).Stores mem written) (hb : s.cached.bridge.Deployed)
    (hfit : (caches.of Value).Fits s.cached.bridge.forwardPlanner.routes (WorkTraits.table Value))
    (hempty : written s.devices = []) (hm : s.Keeps caches master codes inputs)
    (hcertain : s.Certain caches master codes inputs)
    (hdrained : (s.run caches master codes inputs).cached.bridge.queue = []) :
    UpstreamAgrees Value caches written s (s.run caches master codes inputs)
      (s.cached.desiredLog Value caches (inputs.filterMap Gateway.Input.facadeInput)).astray := by
  intro address route hown halone hv hastray
  obtain ⟨hkeeps, hrun⟩ := Gateway.cached_run hm
  have hinStep := run_inStep hmaster hb hfit hempty hm
  have hshows := run_shows hb hfit hkeeps
  rw [← hrun] at hshows
  have hsettled : ¬ (s.run caches master codes inputs).Unsettled (s.log caches master codes inputs)
      (WorkTraits.table Value) address := by
    rintro ⟨_, a, ha, _⟩
    exact hinStep.mirrors.tracks.coherent.filed.owner (Option.isSome_of_eq_some ha) hdrained
  rw [hinStep.agree hfit address route hown halone ⟨hsettled, hcertain.doubt _ _⟩,
    hshows.drained hdrained hv (hown.within hfit) hastray]

/-- **What upstream reads is what the devices hold.** The devices start in step, the caches reach over
every routed address and the caller keeps its side. When the queue has drained in a run in which
every write answered was applied or is known not to have been carried out, each routed address
with a place of its own that is not astray reads upstream as its device holds it. -/
theorem upstream_reads_devices (hmaster : ∀ mem, (master mem).Stores mem written) (hb : s.cached.bridge.Deployed)
    (hcoils : caches.coils.Fits s.cached.bridge.forwardPlanner.routes .coils)
    (hholding : caches.holding.Fits s.cached.bridge.forwardPlanner.routes .holdingRegisters)
    (hempty : written s.devices = []) (hm : s.Keeps caches master codes inputs)
    (hcertain : s.Certain caches master codes inputs)
    (hdrained : (s.run caches master codes inputs).cached.bridge.queue = []) :
    let s' := s.run caches master codes inputs
    let astray (Value : Type) [CachedElement Value] [DecidableEq Value] :=
      (s.cached.desiredLog Value caches (inputs.filterMap Gateway.Input.facadeInput)).astray
    UpstreamAgrees Bool caches written s s' (astray Bool) ∧ UpstreamAgrees UInt16 caches written s s' (astray UInt16) :=
  ⟨run_upstreamAgrees hmaster hb hcoils hempty hm hcertain hdrained,
    run_upstreamAgrees hmaster hb hholding hempty hm hcertain hdrained⟩

/-- Both works of the test are captured first, and everything is applied. -/
theorem upstream_reads_devices_test :
    let inputs := [.facade (.holding (.captureDesired 100 ⟨1, 0⟩ 4)), .facade (.holding (.captureDesired 100 ⟨2, 0⟩ 1))] ++
      testTraffic fun _ => .applied
    let s' := testGateway.run testCaches testRTUMaster testCodes inputs
    let astray := (testGateway.cached.desiredLog UInt16 testCaches (inputs.filterMap Gateway.Input.facadeInput)).astray
    UpstreamAgrees UInt16 testCaches id testGateway s' astray ∧
    (List.range 4).map (fun j => (astray (100 + j), testCaches.holding.visible.cell s'.cached.memory (100 + j))) =
      [(false, 1), (false, 2), (false, 3), (false, 4)] :=
  ⟨(upstream_reads_devices testRTUMaster_stores testBridge_deployed ⟨by decide, by decide +kernel, by decide +kernel⟩
      ⟨by decide, by decide +kernel, by decide +kernel⟩ rfl (by decide +kernel) (by decide +kernel) (by decide +kernel)).2,
    by decide +kernel⟩

end

/-! ## The last write wins -/

/-- What an instance landed on an address. -/
def Instance.landed (Value : Type) [WorkTraits Value] (address : Nat) (i : Instance) : Option Value :=
  if i.Met (WorkTraits.table Value) address then some (i.value Value address) else none

section
variable {Value : Type} [WorkTraits Value] {p : ForwardPlanner} {b : StoreForwardBridge} {g : Log} {i : Instance} {k : Nat}

theorem carried_pieces (i : Instance) (v : Value) : carried Value i.pieces k v = (i.landed Value k).getD v := by
  have hmem : ∀ y ∈ i.pieces, ∃ x ∈ i.answers, x.Applied ∧ y = (i.origin, x.write) := by
    intro y hy
    obtain ⟨x, hx, rfl⟩ := List.mem_map.1 hy
    obtain ⟨hx, happlied⟩ := List.mem_filter.1 hx
    exact ⟨x, hx, of_decide_eq_true happlied, rfl⟩
  unfold Instance.landed
  split
  · rename_i hmet
    obtain ⟨x, hx, happlied, hcov⟩ := hmet
    refine carried_agree (fun y hy => ?_)
      ⟨(i.origin, x.write), List.mem_map_of_mem (List.mem_filter.2 ⟨hx, decide_eq_true happlied⟩), hcov⟩
    obtain ⟨_, _, _, rfl⟩ := hmem y hy
    rfl
  · rename_i hmet
    refine carried_other fun y hy hcov => hmet ?_
    obtain ⟨x, hx, happlied, rfl⟩ := hmem y hy
    exact ⟨x, hx, happlied, hcov⟩

/-- The pieces of some instances carry what those landed. -/
theorem carried_landed (is : List Instance) (v : Value) :
    carried Value (is.flatMap Instance.pieces) k v = overlay (Instance.landed Value k) is v := by
  induction is generalizing v with
  | nil => rfl
  | cons i is ih => rw [List.flatMap_cons, carried_append, carried_pieces, overlay_cons, ih]

/-- Every answer is to a slice of its work. -/
theorem Tracks.answer_slice (h : Tracks p b g) (hi : i ∈ g.instances) {x : Answer} (hx : x ∈ i.answers) :
    Slice i x.write := by
  obtain ⟨before, s, o, tail, hprogress, hanswers, htail⟩ := h.stands hi
  have hissued : x.write ∈ i.issued := by
    rw [show i.issued = _ from hprogress.issued]
    rw [hanswers] at hx
    rcases List.mem_append.1 hx with hx | hx
    · exact List.mem_append_left _ (List.mem_map_of_mem hx)
    · refine List.mem_append_right _ ?_
      rw [htail x hx]
      exact List.mem_singleton_self _
  obtain ⟨n, hn⟩ := List.mem_iff_getElem?.1 hissued
  obtain ⟨s', sequence, hsent, hok, hr, htakes, _⟩ := hprogress.sent.get hn
  exact .of_takes hsent.sameWork hok hr htakes

/-- A work applied as a whole landed on every address it writes, and on no other. -/
theorem Tracks.allApplied_met (h : Tracks p b g) (hi : i ∈ g.instances) (hall : i.AllApplied) {t : RegisterTable} :
    i.Met t k ↔ i.Over t k := by
  constructor
  · rintro ⟨x, hx, _, hcov⟩
    exact (h.answer_slice hi hx).over hcov
  · rintro ⟨ht, hlo, hhi⟩
    have hmem : k ∈ List.range' i.work.start.toNat i.work.count.toNat := List.mem_range'_1.2 ⟨hlo, hhi⟩
    rw [← hall.covers.addresses] at hmem
    obtain ⟨w, hw, hk⟩ := List.mem_flatMap.1 hmem
    obtain ⟨x, hx, rfl⟩ := List.mem_map.1 hw
    obtain ⟨hlo, hhi⟩ := List.mem_range'_1.1 hk
    exact ⟨x, hx, hall.applied x hx, (h.answer_slice hi hx).table.trans ht, hlo, hhi⟩

end

section
variable {σ Result : Type} {caches : Caches} {written : σ → List ElementWrite} {s : Gateway σ}
  {master : Memory → ModbusRTUMaster σ Result} {codes : ModbusRTUMasterResultCodes Result} {inputs : List Gateway.Input}

/-- Each address of its own holds in the devices what `value` makes of what it held at the start. -/
def DevicesHold {Value : Type} [DeviceElement Value] (caches : Caches) (written : σ → List ElementWrite)
    (s s' : Gateway σ) (value : Nat → Value → Value) : Prop :=
  ∀ address route, s.cached.bridge.forwardPlanner.routes.Owns (WorkTraits.table Value) address route →
    s.cached.bridge.forwardPlanner.routes.Alone (WorkTraits.table Value) address →
    held Value (written s'.devices) (s.cached.bridge.forwardPlanner.routes.place (WorkTraits.table Value) route address)
      ((caches.of Value).applied.cell s.cached.memory address) =
    value address ((caches.of Value).applied.cell s.cached.memory address)

/-- What the works, in admission order, leave in the devices. -/
structure LastWriteWins (Value : Type) [DeviceElement Value] (caches : Caches) (written : σ → List ElementWrite)
    (s s' : Gateway σ) (works : List Instance) : Prop where
  /-- The element of the last work that landed on the address. -/
  landed : DevicesHold caches written s s' fun address => overlay (Instance.landed Value address) works
  /-- If every work was applied as a whole, that of the last work over it. -/
  whole : (∀ i ∈ works, i.AllApplied) → DevicesHold caches written s s' (desired Value works)

theorem run_lastWriteWins {Value : Type} [DeviceElement Value] [LawfulElement Value] [LawfulDevice Value]
    (hmaster : ∀ mem, (master mem).Stores mem written) (hb : s.cached.bridge.Deployed)
    (hfit : (caches.of Value).Fits s.cached.bridge.forwardPlanner.routes (WorkTraits.table Value))
    (hempty : written s.devices = []) (hm : s.Keeps caches master codes inputs)
    (hcertain : s.Certain caches master codes inputs)
    (hidle : (s.run caches master codes inputs).cached.bridge.inFlight = false) :
    LastWriteWins Value caches written s (s.run caches master codes inputs)
      (s.log caches master codes inputs).cached.log.instances := by
  have hinStep := run_inStep hmaster hb hfit hempty hm
  have hlanded : DevicesHold caches written s (s.run caches master codes inputs) fun address =>
      overlay (Instance.landed Value address) (s.log caches master codes inputs).cached.log.instances := by
    intro address route hown halone
    have hsettled : ¬ (s.run caches master codes inputs).Unsettled (s.log caches master codes inputs)
        (WorkTraits.table Value) address := by
      rintro ⟨_, a, ha, _⟩
      rw [outstanding_idle hidle] at ha
      cases ha
    rw [(hinStep.holds address route hown halone).settled hsettled (hcertain.doubt _ _), hinStep.mirrors.pieces,
      carried_landed]
  refine ⟨hlanded, fun hall address route hown halone => (hlanded address route hown halone).trans ?_⟩
  refine overlay_congr fun i hi => ?_
  simp only [Instance.landed, Instance.layer, hinStep.mirrors.tracks.allApplied_met hi (hall i hi)]

/-- **The last write wins.** The devices start in step, the caches reach over every routed address and
the caller keeps its side. In a run in which every write answered was applied or is known not to
have been carried out, and whatever was retried or given up in it, each routed address with a place
of its own ends with the element of the last work, in admission order, that landed there. -/
theorem last_write_wins (hmaster : ∀ mem, (master mem).Stores mem written) (hb : s.cached.bridge.Deployed)
    (hcoils : caches.coils.Fits s.cached.bridge.forwardPlanner.routes .coils)
    (hholding : caches.holding.Fits s.cached.bridge.forwardPlanner.routes .holdingRegisters)
    (hempty : written s.devices = []) (hm : s.Keeps caches master codes inputs)
    (hcertain : s.Certain caches master codes inputs)
    (hidle : (s.run caches master codes inputs).cached.bridge.inFlight = false) :
    let s' := s.run caches master codes inputs
    let works := (s.log caches master codes inputs).cached.log.instances
    LastWriteWins Bool caches written s s' works ∧ LastWriteWins UInt16 caches written s s' works :=
  ⟨run_lastWriteWins hmaster hb hcoils hempty hm hcertain hidle,
    run_lastWriteWins hmaster hb hholding hempty hm hcertain hidle⟩

/-- Both works of the test are forwarded; the second write of the first is known not to be sent. -/
theorem last_write_wins_test :
    let inputs := (testTraffic fun k => if k = 1 then .definitelyNotSent else .applied).eraseIdx 6
    let s' := testGateway.run testCaches testRTUMaster testCodes inputs
    let works := (testGateway.log testCaches testRTUMaster testCodes inputs).cached.log.instances
    LastWriteWins UInt16 testCaches id testGateway s' works ∧
    (List.range 4).map (fun j => works.filterMap (Instance.landed UInt16 (100 + j))) = [[1, 1], [2], [], []] :=
  ⟨(last_write_wins testRTUMaster_stores testBridge_deployed ⟨by decide, by decide +kernel, by decide +kernel⟩
      ⟨by decide, by decide +kernel, by decide +kernel⟩ rfl (by decide +kernel) (by decide +kernel) (by decide +kernel)).2,
    by decide +kernel⟩

end

end ModbusRTUBridge
