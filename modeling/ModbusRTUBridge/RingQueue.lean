import ModbusRTUBridge.FixedStorage
import ModbusRTUBridge.Lib.Ring
/-!
# `FixedRingQueue` is a bounded list

`toList` reads the queue as the list of its elements, head first. Every operation keeps the
index bounds (`WF`) and acts on that list as its name says.
-/

namespace ModbusRTUBridge

namespace FixedRingQueue
variable {T : Type} {q : FixedRingQueue T}

/-- What a queue over valid storage keeps: a head inside the storage and at most `capacity`
elements. -/
structure WF (q : FixedRingQueue T) : Prop where
  valid : q.validStorage = true
  head_lt : q.head.toNat < q.capacity.toNat ∨ q.capacity.toNat = 0 ∧ q.head.toNat = 0
  size_le : q.size.toNat ≤ q.capacity.toNat

theorem WF.storage_isSome (h : q.WF) (hc : q.capacity.toNat ≠ 0) : q.storage.isNone = false := by
  have hv := h.valid
  have : q.capacity ≠ 0 := fun e => hc (by rw [e]; rfl)
  simpa [validStorage, this] using hv

/-- Compare-and-subtract computes the ring index. -/
theorem toNat_physicalIndex {k : UInt16} (hh : q.head.toNat < q.capacity.toNat) (hk : k.toNat < q.capacity.toNat) :
    (q.physicalIndex k).toNat = Ring.slot q.capacity.toNat q.head.toNat k.toNat := by
  have hc := q.capacity.toNat_lt
  have hsum : (q.head.toUInt32 + k.toUInt32).toNat = q.head.toNat + k.toNat := by
    simp only [UInt32.toNat_add, UInt16.toNat_toUInt32]; omega
  have hslot := Ring.slot_lt hh hk
  unfold Ring.slot at hslot ⊢
  simp only [physicalIndex, ge_iff_le, UInt32.le_iff_toNat_le, UInt16.toNat_toUInt32, hsum]
  split <;> rename_i hle
  · rw [if_pos hle] at hslot
    rw [UInt32.toNat_toUInt16, UInt32.toNat_sub_of_le _ _ (by
      rw [UInt32.le_iff_toNat_le, UInt16.toNat_toUInt32, hsum]; exact hle), hsum, UInt16.toNat_toUInt32]
    omega
  · rw [if_neg hle] at hslot
    rw [UInt32.toNat_toUInt16, hsum]
    omega

theorem toNat_increment (hh : q.head.toNat < q.capacity.toNat) :
    (q.increment q.head).toNat = Ring.advance q.capacity.toNat q.head.toNat := by
  have hc := q.capacity.toNat_lt
  have hadd : (q.head + 1).toNat = q.head.toNat + 1 := toNat_succ_of_lt (by omega)
  unfold increment Ring.advance
  simp only [← UInt16.toNat_inj, hadd]
  split
  · rfl
  · exact hadd

variable [Inhabited T]

/-- The queue's elements, head first. -/
def toList (q : FixedRingQueue T) : List T :=
  Ring.window q.storage.at q.capacity.toNat q.head.toNat q.size.toNat

@[simp] theorem length_toList (q : FixedRingQueue T) : q.toList.length = q.size.toNat := by simp [toList]

theorem size_eq_zero_iff : q.size = 0 ↔ q.toList = [] := by
  rw [← List.length_eq_zero_iff, length_toList, ← UInt16.toNat_inj]; rfl

omit [Inhabited T] in
theorem create_wf {storage : Storage T} {capacity : UInt16} (h : capacity = 0 ∨ storage.isNone = false) :
    WF { storage, capacity : FixedRingQueue T } := by
  refine ⟨by rcases h with h | h <;> simp [validStorage, h], ?_, Nat.zero_le _⟩
  rcases Nat.eq_zero_or_pos capacity.toNat with h0 | h0
  · exact Or.inr ⟨h0, rfl⟩
  · exact Or.inl h0

theorem full_iff : q.full = true ↔ q.toList.length = q.capacity.toNat := by
  simp [full, ← UInt16.toNat_inj]

/-- `front` is the first element. -/
theorem front_eq (h : q.WF) : q.front = q.toList.head? := by
  unfold front empty
  by_cases hs : q.size = 0
  · simp [hs, size_eq_zero_iff.1 hs]
  · have hpos : 0 < q.size.toNat := toNat_pos.2 hs
    have hle := h.size_le
    have hh : q.head.toNat < q.capacity.toNat := by have := h.head_lt; omega
    obtain ⟨n, hn⟩ : ∃ n, q.size.toNat = n + 1 := ⟨q.size.toNat - 1, by omega⟩
    simp only [hs, beq_iff_eq, h.valid, Bool.not_true, Bool.false_eq_true, or_self, ite_false, toList, hn]
    rw [Ring.window_cons _ hh (by omega)]
    rfl

/-- `at` reads by position. -/
theorem elementAt_eq (h : q.WF) (k : UInt16) : q.elementAt k = q.toList[k.toNat]? := by
  unfold elementAt toList
  rw [Ring.getElem?_window]
  by_cases hk : k.toNat < q.size.toNat
  · have hle := h.size_le
    have hh : q.head.toNat < q.capacity.toNat := by have := h.head_lt; omega
    rw [if_pos ⟨UInt16.lt_iff_toNat_lt.2 hk, h.valid⟩, if_pos hk, toNat_physicalIndex hh (by omega)]
  · rw [if_neg hk, if_neg]
    exact fun hbad => hk (UInt16.lt_iff_toNat_lt.1 hbad.1)

omit [Inhabited T] in
/-- A full queue refuses. -/
theorem tryPush_full (hfull : q.full = true) (x : T) : q.tryPush x = (false, q) := by
  unfold tryPush
  rw [if_pos (Or.inr hfull)]

/-- So does an empty one. -/
theorem popFront_empty (hempty : q.toList = []) : q.popFront = (false, q) := by
  unfold popFront empty
  rw [if_pos (Or.inl (by simp [size_eq_zero_iff.2 hempty]))]

/-- `tryPop` reads the first element and drops it. -/
theorem tryPop_eq (h : q.WF) : q.tryPop = (q.toList.head?, q.popFront.2) := by
  have hfront := front_eq h
  unfold front at hfront
  unfold tryPop
  by_cases hempty : q.empty = true ∨ (!q.validStorage) = true
  · rw [if_pos hempty] at hfront ⊢
    rw [← hfront, popFront, if_pos hempty]
  · rw [if_neg hempty] at hfront ⊢
    rw [← hfront]

theorem clear_spec (h : q.WF) : q.clear.WF ∧ q.clear.toList = [] := by
  refine ⟨⟨h.valid, ?_, Nat.zero_le _⟩, rfl⟩
  rcases Nat.eq_zero_or_pos q.capacity.toNat with h0 | h0
  · exact Or.inr ⟨h0, rfl⟩
  · exact Or.inl h0

/-- Pushing appends, as long as there is room. -/
theorem tryPush_spec (h : q.WF) (hfull : q.full = false) (x : T) :
    (q.tryPush x).1 = true ∧ (q.tryPush x).2.WF ∧ (q.tryPush x).2.toList = q.toList ++ [x] := by
  have hne : q.size.toNat ≠ q.capacity.toNat := fun e => by
    rw [← length_toList, ← full_iff] at e; simp [hfull] at e
  have hle := h.size_le
  have hc := q.capacity.toNat_lt
  have hh : q.head.toNat < q.capacity.toNat := by have := h.head_lt; omega
  have hsize : (q.size + 1).toNat = q.size.toNat + 1 := toNat_succ_of_lt (by omega)
  have heq : q.tryPush x = (true, { q with
      storage := q.storage.set (q.physicalIndex q.size).toNat x, size := q.size + 1 }) := by
    simp [tryPush, h.valid, hfull]
  have hsome := h.storage_isSome (by omega)
  rw [heq]
  refine ⟨rfl, ⟨?_, Or.inl hh, by show (q.size + 1).toNat ≤ q.capacity.toNat; omega⟩, ?_⟩
  · simp [validStorage, hsome]
  · simp only [toList, hsize]
    rw [toNat_physicalIndex hh (by omega), ← Ring.window_push _ x (by omega : q.size.toNat < q.capacity.toNat)]
    apply Ring.window_congr
    intro k _
    by_cases e : Ring.slot q.capacity.toNat q.head.toNat k = Ring.slot q.capacity.toNat q.head.toNat q.size.toNat
    · rw [e, Storage.at_set_self hsome, if_pos rfl]
    · rw [Storage.at_set_ne _ _ e, if_neg e]

/-- Popping drops the first element. -/
theorem popFront_spec (h : q.WF) {x : T} {xs : List T} (hl : q.toList = x :: xs) :
    q.popFront.1 = true ∧ q.popFront.2.WF ∧ q.popFront.2.toList = xs := by
  have hlen : q.size.toNat = xs.length + 1 := by rw [← length_toList, hl]; rfl
  have hle := h.size_le
  have hh : q.head.toNat < q.capacity.toNat := by have := h.head_lt; omega
  have hs0 : q.size ≠ 0 := fun e => by rw [e] at hlen; simp at hlen
  have hsub : (q.size - 1).toNat = xs.length := by
    rw [toNat_pred (by omega), hlen, Nat.add_sub_cancel]
  have heq : q.popFront = (true, { q with
      head := if q.size - 1 = 0 then 0 else q.increment q.head, size := q.size - 1 }) := by
    simp [popFront, empty, hs0, h.valid]
  have hwin : Ring.window q.storage.at q.capacity.toNat (Ring.advance q.capacity.toNat q.head.toNat) xs.length = xs := by
    have := hl
    rw [toList, hlen, Ring.window_cons _ hh (by omega)] at this
    exact (List.cons.inj this).2
  rw [heq]
  refine ⟨rfl, ⟨h.valid, ?_, by show (q.size - 1).toNat ≤ q.capacity.toNat; omega⟩, ?_⟩
  · left
    show (if q.size - 1 = 0 then (0 : UInt16) else q.increment q.head).toNat < q.capacity.toNat
    split
    · simp; omega
    · rw [toNat_increment hh]; exact Ring.advance_lt hh
  · simp only [toList, hsub]
    split
    · rename_i e
      have : xs.length = 0 := by rw [← hsub, e]; rfl
      rw [this, Ring.window_zero, List.length_eq_zero_iff.1 this]
    · rw [toNat_increment hh, hwin]

/-- Writing through the front pointer replaces the first element. -/
theorem writeFront_spec (h : q.WF) {x y : T} {xs : List T} (hl : q.toList = x :: xs) :
    (q.writeFront y).WF ∧ (q.writeFront y).toList = y :: xs := by
  have hlen : q.size.toNat = xs.length + 1 := by rw [← length_toList, hl]; rfl
  have hle := h.size_le
  have hh : q.head.toNat < q.capacity.toNat := by have := h.head_lt; omega
  have hsome := h.storage_isSome (by omega)
  refine ⟨⟨by simp [writeFront, validStorage, hsome], h.head_lt, h.size_le⟩, ?_⟩
  have hcells : (q.storage.set q.head.toNat y).at = fun j => if j = q.head.toNat then y else q.storage.at j := by
    funext j
    by_cases e : j = q.head.toNat
    · rw [e, Storage.at_set_self hsome, if_pos rfl]
    · rw [Storage.at_set_ne _ _ e, if_neg e]
  have htl := hl
  rw [toList, hlen, Ring.window_cons _ hh (by omega)] at htl
  simp only [toList, writeFront, hlen, hcells]
  rw [Ring.window_set_head _ y hh (by omega), (List.cons.inj htl).2]

end FixedRingQueue

end ModbusRTUBridge
