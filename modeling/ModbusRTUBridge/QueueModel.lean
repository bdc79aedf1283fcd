import ModbusRTUBridge.Lib.Machine
import ModbusRTUBridge.RingQueue
/-!
# The ring queue refines a bounded list

`BoundedList` says what `FixedRingQueue` is for: a list with room for `capacity` elements, grown at
the back and shortened at the front. It knows no head and no wrap. The queue answers every sequence
of calls as the list does, and touches no cell outside its storage on the way
(`ring_queue_refines_list`).
-/

namespace ModbusRTUBridge

/-- A public call; `elementAt` is `at`. -/
inductive QueueCall (T : Type) where
  | tryPush (value : T)
  | tryPop
  | popFront
  | front
  | elementAt (logicalIndex : UInt16)
  | clear

inductive QueueResult (T : Type) where
  | pushed (ok : Bool)
  | popped (value : Option T)
  | dropped (ok : Bool)
  /-- What the returned pointer points at; `none` is `nullptr`. -/
  | element (value : Option T)
  | cleared
deriving DecidableEq

/-- `false`, or `nullptr`. -/
def QueueResult.failed {T : Type} : QueueResult T → Bool
  | .pushed ok | .dropped ok => !ok
  | .popped value | .element value => value.isNone
  | .cleared => false

namespace FixedRingQueue
variable {T : Type}

def step [Inhabited T] (q : FixedRingQueue T) : QueueCall T → QueueResult T × FixedRingQueue T
  | .tryPush value => (.pushed (q.tryPush value).1, (q.tryPush value).2)
  | .tryPop => (.popped q.tryPop.1, q.tryPop.2)
  | .popFront => (.dropped q.popFront.1, q.popFront.2)
  | .front => (.element q.front, q)
  | .elementAt logicalIndex => (.element (q.elementAt logicalIndex), q)
  | .clear => (.cleared, q.clear)

/-- The indices `storage_` is accessed at (`FixedStorage.h:47`, `:56`, `:76`, `:85`). -/
def accesses (q : FixedRingQueue T) : QueueCall T → List UInt16
  | .tryPush _ => if !q.validStorage ∨ q.full then [] else [q.physicalIndex q.size]
  | .tryPop | .front => if q.empty ∨ !q.validStorage then [] else [q.head]
  | .elementAt logicalIndex =>
    if logicalIndex < q.size ∧ q.validStorage then [q.physicalIndex logicalIndex] else []
  | .popFront | .clear => []

end FixedRingQueue

/-! ## The list -/

structure BoundedList (T : Type) (capacity : Nat) where
  items : List T
  fits : items.length ≤ capacity

namespace BoundedList
variable {T : Type} {capacity : Nat}

def empty : BoundedList T capacity := ⟨[], Nat.zero_le _⟩

def push (l : BoundedList T capacity) (value : T) (h : l.items.length ≠ capacity) : BoundedList T capacity :=
  ⟨l.items ++ [value], by have := l.fits; rw [List.length_append, List.length_singleton]; omega⟩

def pop (l : BoundedList T capacity) : BoundedList T capacity :=
  ⟨l.items.tail, by have := l.fits; rw [List.length_tail]; omega⟩

@[simp] theorem push_items (l : BoundedList T capacity) (value : T) (h : l.items.length ≠ capacity) :
    (l.push value h).items = l.items ++ [value] := rfl

@[simp] theorem pop_items (l : BoundedList T capacity) : l.pop.items = l.items.tail := rfl

/-- What each call means. -/
def step (l : BoundedList T capacity) : QueueCall T → QueueResult T × BoundedList T capacity
  | .tryPush value =>
    if h : l.items.length = capacity then (.pushed false, l) else (.pushed true, l.push value h)
  | .tryPop => (.popped l.items.head?, l.pop)
  | .popFront => (.dropped (!l.items.isEmpty), l.pop)
  | .front => (.element l.items.head?, l)
  | .elementAt logicalIndex => (.element l.items[logicalIndex.toNat]?, l)
  | .clear => (.cleared, empty)

end BoundedList

/-! ## Refinement -/

theorem FixedRingQueue.step_capacity {T : Type} [Inhabited T] (q : FixedRingQueue T) (call : QueueCall T) :
    (q.step call).2.capacity = q.capacity := by
  cases call with
  | tryPush value =>
    simp only [step, tryPush]
    split <;> rfl
  | tryPop =>
    simp only [step, tryPop, popFront]
    split
    · rfl
    · split <;> rfl
  | popFront =>
    simp only [step, popFront]
    split <;> rfl
  | _ => rfl

/-- The queue holds the list. -/
structure Represents {T : Type} [Inhabited T] {capacity : Nat} (q : FixedRingQueue T) (l : BoundedList T capacity) :
    Prop where
  wf : q.WF
  capacity_eq : q.capacity.toNat = capacity
  items : q.toList = l.items

namespace Represents
variable {T : Type} [Inhabited T] {capacity : Nat} {q : FixedRingQueue T} {l : BoundedList T capacity}

theorem full_iff (h : Represents q l) : q.full = true ↔ l.items.length = capacity := by
  rw [FixedRingQueue.full_iff, h.items, h.capacity_eq]

theorem push (h : Represents q l) (value : T) (hroom : l.items.length ≠ capacity) :
    (q.tryPush value).1 = true ∧ Represents (q.tryPush value).2 (l.push value hroom) := by
  have hfull : q.full = false := Bool.eq_false_iff.2 fun hbad => hroom (h.full_iff.1 hbad)
  obtain ⟨hok, hwf, hlist⟩ := FixedRingQueue.tryPush_spec h.wf hfull value
  have hcapacity : (q.tryPush value).2.capacity = q.capacity := q.step_capacity (.tryPush value)
  refine ⟨hok, hwf, ?_, ?_⟩
  · rw [hcapacity]
    exact h.capacity_eq
  · rw [hlist, h.items, BoundedList.push_items]

theorem pop (h : Represents q l) : q.popFront.1 = !l.items.isEmpty ∧ Represents q.popFront.2 l.pop := by
  cases hl : l.items with
  | nil =>
    have hempty := h.items.trans hl
    rw [FixedRingQueue.popFront_empty hempty]
    refine ⟨rfl, h.wf, h.capacity_eq, ?_⟩
    rw [hempty, BoundedList.pop_items, hl]
    rfl
  | cons x xs =>
    obtain ⟨hok, hwf, hlist⟩ := FixedRingQueue.popFront_spec h.wf (h.items.trans hl)
    have hcapacity : q.popFront.2.capacity = q.capacity := q.step_capacity .popFront
    refine ⟨hok, hwf, ?_, ?_⟩
    · rw [hcapacity]
      exact h.capacity_eq
    · rw [hlist, BoundedList.pop_items, hl]
      rfl

/-- **One call**: the same answer, and the queue holds the new list. -/
theorem step (h : Represents q l) (call : QueueCall T) :
    (q.step call).1 = (l.step call).1 ∧ Represents (q.step call).2 (l.step call).2 := by
  cases call with
  | tryPush value =>
    simp only [FixedRingQueue.step, BoundedList.step]
    by_cases hfull : l.items.length = capacity
    · rw [dif_pos hfull, FixedRingQueue.tryPush_full (h.full_iff.2 hfull)]
      exact ⟨rfl, h⟩
    · rw [dif_neg hfull]
      obtain ⟨hok, hnext⟩ := h.push value hfull
      exact ⟨congrArg QueueResult.pushed hok, hnext⟩
  | tryPop =>
    simp only [FixedRingQueue.step, BoundedList.step, FixedRingQueue.tryPop_eq h.wf, h.items, true_and]
    exact h.pop.2
  | popFront => exact ⟨congrArg QueueResult.dropped h.pop.1, h.pop.2⟩
  | front =>
    refine ⟨congrArg QueueResult.element ?_, h⟩
    rw [FixedRingQueue.front_eq h.wf, h.items]
  | elementAt k =>
    refine ⟨congrArg QueueResult.element ?_, h⟩
    rw [FixedRingQueue.elementAt_eq h.wf, h.items]
  | clear =>
    obtain ⟨hwf, hlist⟩ := FixedRingQueue.clear_spec h.wf
    exact ⟨rfl, hwf, h.capacity_eq, hlist⟩

end Represents

theorem FixedRingQueue.WF.step {T : Type} [Inhabited T] {q : FixedRingQueue T} (h : q.WF) (call : QueueCall T) :
    (q.step call).2.WF := by
  have hq : Represents q (⟨q.toList, by rw [q.length_toList]; exact h.size_le⟩ : BoundedList T q.capacity.toNat) :=
    ⟨h, rfl, rfl⟩
  exact (hq.step call).2.wf

/-! ## Inside the storage -/

abbrev QueueEvent (T : Type) := Machine.Event (FixedRingQueue T) (QueueCall T) (QueueResult T)

namespace FixedRingQueue
variable {T : Type} [Inhabited T] {q : FixedRingQueue T}

/-- What a call does not access it does not write. -/
theorem step_unwritten {call : QueueCall T} {j : Nat} (h : ∀ i ∈ q.accesses call, i.toNat ≠ j) :
    (q.step call).2.storage.at j = q.storage.at j := by
  cases call with
  | tryPush value =>
    simp only [step, tryPush, accesses] at h ⊢
    split
    · rfl
    · rename_i hok
      rw [if_neg hok] at h
      have hne := h (q.physicalIndex q.size) List.mem_cons_self
      exact Storage.at_set_ne q.storage value (Ne.symm hne)
  | tryPop =>
    simp only [step, tryPop, popFront]
    split
    · rfl
    · split <;> rfl
  | popFront =>
    simp only [step, popFront]
    split <;> rfl
  | _ => rfl

omit [Inhabited T] in
theorem accesses_lt (h : q.WF) (call : QueueCall T) : ∀ i ∈ q.accesses call, i.toNat < q.capacity.toNat := by
  have hle := h.size_le
  have hhead : 0 < q.capacity.toNat → q.head.toNat < q.capacity.toNat := by
    have := h.head_lt
    omega
  have hphysical : ∀ k : UInt16, k.toNat < q.capacity.toNat → (q.physicalIndex k).toNat < q.capacity.toNat := by
    intro k hk
    rw [toNat_physicalIndex (hhead (by omega)) hk]
    exact Ring.slot_lt (hhead (by omega)) hk
  -- `tryPop` and `front` read the head
  have hfirst : ∀ i ∈ (if q.empty ∨ !q.validStorage then [] else [q.head]), i.toNat < q.capacity.toNat := by
    intro i hi
    split at hi
    · cases hi
    · rename_i hne
      obtain rfl := List.mem_singleton.1 hi
      have hsize : q.size ≠ 0 := fun e => hne (Or.inl (by simp [empty, e]))
      have hpos := toNat_pos.2 hsize
      exact hhead (by omega)
  intro i hi
  cases call with
  | tryPush value =>
    simp only [accesses] at hi
    split at hi
    · cases hi
    · rename_i hok
      obtain rfl := List.mem_singleton.1 hi
      have hroom : q.size.toNat ≠ q.capacity.toNat := by
        intro e
        exact hok (Or.inr (by simpa [full] using UInt16.toNat_inj.1 e))
      exact hphysical _ (by omega)
  | tryPop => exact hfirst i hi
  | front => exact hfirst i hi
  | elementAt k =>
    simp only [accesses] at hi
    split at hi
    · rename_i hk
      obtain rfl := List.mem_singleton.1 hi
      have hlt := UInt16.lt_iff_toNat_lt.1 hk.1
      exact hphysical _ (by omega)
    · cases hi
  | popFront => cases hi
  | clear => cases hi

/-- A call that fails changes nothing. -/
theorem failed_noop (h : q.WF) {call : QueueCall T} (hfailed : (q.step call).1.failed = true) : (q.step call).2 = q := by
  cases call with
  | tryPush value =>
    simp only [step, tryPush, QueueResult.failed] at hfailed ⊢
    split at hfailed
    · rename_i hfull
      rw [if_pos hfull]
    · cases hfailed
  | tryPop =>
    simp only [step, tryPop_eq h, QueueResult.failed, Option.isNone_iff_eq_none, List.head?_eq_none_iff] at hfailed ⊢
    rw [popFront_empty hfailed]
  | popFront =>
    simp only [step, popFront, QueueResult.failed] at hfailed ⊢
    split at hfailed
    · rename_i hempty
      rw [if_pos hempty]
    · cases hfailed
  | front => rfl
  | elementAt k => rfl
  | clear => cases hfailed

end FixedRingQueue

/-- A call that stays inside a storage of `capacity` cells. -/
structure QueueSafe {T : Type} [Inhabited T] (capacity : UInt16) (e : QueueEvent T) : Prop where
  head_lt : e.before.head.toNat < capacity.toNat ∨ capacity = 0 ∧ e.before.head = 0
  accesses_lt : ∀ i ∈ e.before.accesses e.input, i.toNat < capacity.toNat
  unwritten : ∀ j, capacity.toNat ≤ j → (e.before.step e.input).2.storage.at j = e.before.storage.at j
  failed_noop : e.output.failed = true → (e.before.step e.input).2 = e.before

/-! ## Every run -/

section
variable {T : Type} [Inhabited T] {storage : Storage T} {capacity : UInt16}

theorem create_represents (hstorage : capacity = 0 ∨ storage.isNone = false) :
    Represents { storage, capacity : FixedRingQueue T } (BoundedList.empty : BoundedList T capacity.toNat) :=
  ⟨FixedRingQueue.create_wf hstorage, rfl, rfl⟩

omit [Inhabited T] in
theorem FixedRingQueue.WF.head_zero {q : FixedRingQueue T} (h : q.WF) :
    q.head.toNat < q.capacity.toNat ∨ q.capacity = 0 ∧ q.head = 0 := by
  rcases h.head_lt with hlt | ⟨hcapacity, hhead⟩
  · exact Or.inl hlt
  · exact Or.inr ⟨UInt16.toNat_inj.1 hcapacity, UInt16.toNat_inj.1 hhead⟩

theorem FixedRingQueue.WF.safe {q : FixedRingQueue T} (h : q.WF) (call : QueueCall T) :
    QueueSafe q.capacity ⟨q, call, (q.step call).1⟩ := by
  refine ⟨h.head_zero, accesses_lt h call, ?_, failed_noop h⟩
  intro j hj
  refine step_unwritten fun i hi => ?_
  have := accesses_lt h call i hi
  omega

/-- **The ring queue refines a bounded list.** -/
theorem ring_queue_refines_list (hstorage : capacity = 0 ∨ storage.isNone = false) (calls : List (QueueCall T)) :
    (Machine.trace FixedRingQueue.step { storage, capacity : FixedRingQueue T } calls).map Machine.Event.output =
      (Machine.trace BoundedList.step (.empty : BoundedList T capacity.toNat) calls).map Machine.Event.output ∧
    Represents (Machine.final FixedRingQueue.step { storage, capacity : FixedRingQueue T } calls)
      (Machine.final BoundedList.step (.empty : BoundedList T capacity.toNat) calls) ∧
    ∀ e ∈ Machine.trace FixedRingQueue.step { storage, capacity : FixedRingQueue T } calls, QueueSafe capacity e := by
  obtain ⟨houtputs, hfinal⟩ := Machine.refines (R := Represents) (fun _ _ call h => h.step call)
    (create_represents hstorage) calls
  refine ⟨houtputs, hfinal, ?_⟩
  intro e he
  obtain ⟨⟨hwf, hcapacity⟩, hout⟩ := Machine.inv_trace FixedRingQueue.step (P := fun q => q.WF ∧ q.capacity = capacity)
    (fun q call h => ⟨h.1.step call, (q.step_capacity call).trans h.2⟩) ⟨FixedRingQueue.create_wf hstorage, rfl⟩ calls e he
  have hsafe := hwf.safe e.input
  rw [← hout, hcapacity] at hsafe
  exact hsafe

end

/-- Around a ring of two: the third push fails, the fourth lands in the first cell. -/
def testQueueCalls : List (QueueCall Nat) :=
  [.tryPush 7, .tryPush 8, .tryPush 9, .tryPop, .tryPush 10, .elementAt 1, .elementAt 2, .popFront, .front, .clear, .tryPop]

example : (Machine.trace FixedRingQueue.step { storage := some fun _ => 0, capacity := 2 } testQueueCalls).map
    Machine.Event.output = [.pushed true, .pushed true, .pushed false, .popped (some 7), .pushed true, .element (some 10),
      .element none, .dropped true, .element (some 10), .cleared, .popped none] := by decide

theorem ring_queue_refines_list_test :
    (Machine.trace FixedRingQueue.step { storage := some fun _ => 0, capacity := 2 } testQueueCalls).map
      Machine.Event.output = (Machine.trace BoundedList.step (.empty : BoundedList Nat 2) testQueueCalls).map
      Machine.Event.output ∧
    Represents (Machine.final FixedRingQueue.step { storage := some fun _ => 0, capacity := 2 } testQueueCalls)
      (Machine.final BoundedList.step (.empty : BoundedList Nat 2) testQueueCalls) ∧
    ∀ e ∈ Machine.trace FixedRingQueue.step { storage := some fun _ => 0, capacity := 2 } testQueueCalls, QueueSafe 2 e :=
  ring_queue_refines_list (Or.inr rfl) testQueueCalls

end ModbusRTUBridge
