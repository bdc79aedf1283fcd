import ModbusRTUBridge.CompletionLedger
import ModbusRTUBridge.Lib.SlotTable
/-!
# The ledger as a partial map

`CompletionLedger.lookup` is the record filed under a work identity. On a well-formed ledger
(`WF`: distinct valid identities, an exact size) every operation addressed to one identity
changes that identity's record only, and its status says which change it was.
-/

namespace ModbusRTUBridge

/-- The identity an occupied slot is filed under. -/
def CompletionLedgerSlot.key (s : CompletionLedgerSlot) : Option WorkIdentity :=
  if s.occupied then some s.aggregate.work else none

namespace CompletionLedger

theorem key_eq_some {s : CompletionLedgerSlot} {w : WorkIdentity} :
    s.key = some w ↔ s.occupied = true ∧ s.aggregate.work = w := by
  unfold CompletionLedgerSlot.key; split <;> simp_all

@[simp] theorem key_default : CompletionLedgerSlot.key {} = none := rfl

/-- The record filed under `w`. -/
def lookup (l : CompletionLedger) (w : WorkIdentity) : Option CompletionLedgerSlot :=
  SlotTable.get CompletionLedgerSlot.key l.capacity.toNat l.slot w

/-- What every ledger built by `create` keeps. -/
structure WF (l : CompletionLedger) : Prop where
  valid : l.validStorage = true
  distinct : SlotTable.Distinct CompletionLedgerSlot.key l.capacity.toNat l.slot
  size_eq : l.size.toNat = SlotTable.count CompletionLedgerSlot.key l.capacity.toNat l.slot
  key_valid : ∀ i < l.capacity.toNat, ∀ w, (l.slot i).key = some w → w.valid = true
  free_clear : ∀ i < l.capacity.toNat, (l.slot i).occupied = false → l.slot i = {}

variable {l : CompletionLedger} {w : WorkIdentity} {i : Nat} {s : CompletionLedgerSlot}

theorem WF.slots_isSome (h : l.WF) (hi : i < l.capacity.toNat) : l.slots.isNone = false := by
  have hc : l.capacity ≠ 0 := fun e => by rw [e] at hi; simp at hi
  simpa [validStorage, hc] using h.valid

theorem firstIndex_congr {t u : CompletionLedgerSlot → Bool} (h : ∀ i < l.capacity.toNat, t (l.slot i) = u (l.slot i)) :
    l.firstIndex t = l.firstIndex u := by
  unfold firstIndex
  have : ∀ is : List Nat, (∀ i ∈ is, t (l.slot i) = u (l.slot i)) →
      (is.find? fun i => t (l.slot i)) = is.find? fun i => u (l.slot i) := by
    intro is
    induction is with
    | nil => intro _; rfl
    | cons a is ih =>
      intro hall
      simp only [List.find?_cons, hall a (by simp), ih fun i hi => hall i (by simp [hi])]
  exact this _ fun i hi => h i (List.mem_range.1 hi)

/-- `find` is the table's own search. -/
theorem find_eq (h : l.WF) (w : WorkIdentity) :
    l.find w = SlotTable.index CompletionLedgerSlot.key l.capacity.toNat l.slot w := by
  unfold find
  split
  · rename_i hbad
    symm
    rw [SlotTable.index_eq_none]
    intro i hi hk
    rcases hbad with hnone | hval
    · rw [h.slots_isSome hi] at hnone; cases hnone
    · simp [h.key_valid i hi w hk] at hval
  · refine firstIndex_congr (u := fun s => decide (s.key = some w)) fun i _ => ?_
    rw [Bool.eq_iff_iff]
    simp [key_eq_some]

theorem lookup_eq_none_iff (h : l.WF) : l.lookup w = none ↔ l.find w = none := by
  rw [find_eq h, lookup, SlotTable.get, Option.map_eq_none_iff]

theorem lookup_eq_some_iff (h : l.WF) : l.lookup w = some s ↔ ∃ i, l.find w = some i ∧ l.slot i = s := by
  rw [find_eq h, lookup, SlotTable.get, Option.map_eq_some_iff]

theorem find_some (h : l.WF) (hf : l.find w = some i) :
    i < l.capacity.toNat ∧ (l.slot i).key = some w ∧ l.lookup w = some (l.slot i) := by
  have hl := (lookup_eq_some_iff h).2 ⟨i, hf, rfl⟩
  rw [find_eq h] at hf
  exact ⟨(SlotTable.index_some hf).1, (SlotTable.index_some hf).2, hl⟩

/-- An occupied slot holds the record of the identity it is filed under. -/
theorem lookup_of_key (h : l.WF) (hi : i < l.capacity.toNat) (hk : (l.slot i).key = some w) :
    l.lookup w = some (l.slot i) :=
  (SlotTable.get_eq_some h.distinct).2 ⟨i, hi, hk, rfl⟩

/-! ## Writing one slot -/

theorem slot_setSlot (h : l.slots.isNone = false) : (l.setSlot i s).slot = SlotTable.put l.slot i s := by
  funext j
  simp only [slot, setSlot, SlotTable.put]
  split
  · rename_i e; rw [e, Storage.at_set_self h]
  · rename_i e; rw [Storage.at_set_ne _ _ e]

@[simp] theorem setSlot_slot (l : CompletionLedger) (i : Nat) : l.setSlot i (l.slot i) = l := by
  simp [setSlot, slot]

@[simp] theorem setSlot_setSlot (l : CompletionLedger) (i : Nat) (s t : CompletionLedgerSlot) :
    (l.setSlot i s).setSlot i t = l.setSlot i t := by
  simp [setSlot]

theorem others_free (h : l.WF) (hi : i < l.capacity.toNat) (hk : (l.slot i).key = some w) :
    ∀ j < l.capacity.toNat, j ≠ i → (l.slot j).key ≠ some w :=
  fun j hj hji hkj => hji (h.distinct j i w hj hi hkj hk)

/-- A record is written to slot `i`, with the size that goes with it. -/
theorem WF.write (h : l.WF) (hi : i < l.capacity.toNat) {size : UInt16}
    (hd : SlotTable.Distinct CompletionLedgerSlot.key l.capacity.toNat (SlotTable.put l.slot i s))
    (hsize : size.toNat = SlotTable.count CompletionLedgerSlot.key l.capacity.toNat (SlotTable.put l.slot i s))
    (hvalid : ∀ w, s.key = some w → w.valid = true) (hclear : s.occupied = false → s = {}) :
    WF { l.setSlot i s with size := size } := by
  have hsome := h.slots_isSome hi
  have hslot : ({ l.setSlot i s with size := size } : CompletionLedger).slot = SlotTable.put l.slot i s := slot_setSlot hsome
  refine ⟨by simp [validStorage, setSlot, hsome], ?_, ?_, ?_, ?_⟩
  · rw [hslot]
    exact hd
  · rw [hslot]
    exact hsize
  · rw [hslot]
    exact SlotTable.forall_put (P := fun r : CompletionLedgerSlot => ∀ w, r.key = some w → w.valid = true) hvalid h.key_valid
  · rw [hslot]
    exact SlotTable.forall_put (P := fun r : CompletionLedgerSlot => r.occupied = false → r = {}) hclear h.free_clear

/-- **Rewriting the record of `w`.** -/
theorem setSlot_spec (h : l.WF) (hf : l.find w = some i) (hs : s.key = some w) :
    (l.setSlot i s).WF ∧ ∀ w', (l.setSlot i s).lookup w' = if w' = w then some s else l.lookup w' := by
  obtain ⟨hi, hk, _⟩ := find_some h hf
  have hsome := h.slots_isSome hi
  have hslot := slot_setSlot (i := i) (s := s) hsome
  obtain ⟨hd, hget⟩ := SlotTable.get_put h.distinct hi hs (Or.inr hk) (others_free h hi hk)
  have hcount := SlotTable.count_put CompletionLedgerSlot.key l.slot s hi
  rw [hk, hs] at hcount
  simp only [Option.isSome_some, ite_true] at hcount
  refine ⟨h.write hi hd ?_ ?_ ?_, ?_⟩
  · have hsize := h.size_eq
    omega
  · intro v hv
    rw [hs] at hv
    cases hv
    exact h.key_valid i hi w hk
  · intro hfree
    rw [(key_eq_some.1 hs).1] at hfree
    cases hfree
  · intro w'
    simp only [lookup, hslot]
    exact hget w'

/-- **Freeing the record of `w`**: the size goes down by one and cannot underflow. -/
theorem releaseSlot_spec (h : l.WF) (hf : l.find w = some i) :
    (l.releaseSlot i).WF ∧ (l.releaseSlot i).size.toNat + 1 = l.size.toNat ∧
    ∀ w', (l.releaseSlot i).lookup w' = if w' = w then none else l.lookup w' := by
  obtain ⟨hi, hk, _⟩ := find_some h hf
  have hsome := h.slots_isSome hi
  have hslot : (l.releaseSlot i).slot = SlotTable.put l.slot i {} := slot_setSlot hsome
  obtain ⟨hd, hget⟩ := SlotTable.get_free (r := ({} : CompletionLedgerSlot)) h.distinct hi key_default hk
  have hcount := SlotTable.count_put CompletionLedgerSlot.key l.slot {} hi
  rw [hk, key_default] at hcount
  simp only [Option.isSome_some, Option.isSome_none, ite_true, Bool.false_eq_true, ite_false, Nat.add_zero] at hcount
  have hsize : (l.size - 1).toNat + 1 = l.size.toNat := by
    have := h.size_eq
    have hpred : (l.size - 1).toNat = l.size.toNat - 1 := toNat_pred (by omega)
    omega
  refine ⟨h.write hi hd ?_ (fun v hv => by rw [key_default] at hv; cases hv) fun _ => rfl, hsize, ?_⟩
  · have := h.size_eq
    omega
  · intro w'
    simp only [lookup, hslot]
    exact hget w'

/-! ## Construction -/

theorem create_spec {slots : Storage CompletionLedgerSlot} {capacity : UInt16}
    (h : capacity = 0 ∨ slots.isNone = false) :
    (create slots capacity).WF ∧ ∀ w, (create slots capacity).lookup w = none := by
  have hclear : ∀ i < capacity.toNat, (create slots capacity).slot i = {} := by
    intro i hi
    cases slots with
    | none => rfl
    | some f => simp [create, clear, slot, hi]
  have hfree : ∀ i < capacity.toNat, ((create slots capacity).slot i).key = none := fun i hi => by rw [hclear i hi]; rfl
  refine ⟨⟨?_, ?_, ?_, ?_, fun i hi _ => hclear i hi⟩, ?_⟩
  · rcases h with h | h
    · simp [validStorage, create, clear, h]
    · simp [validStorage, create, clear, h]
  · intro i j k hi _ hki; rw [hfree i hi] at hki; cases hki
  · exact (SlotTable.count_eq_zero hfree).symm
  · intro i hi v hv; rw [hfree i hi] at hv; cases hv
  · intro w
    apply SlotTable.get_eq_none.2
    intro i hi hk
    rw [hfree i hi] at hk; cases hk

/-! ## The operations -/

/-- `reserve` files a fresh record, or changes nothing. -/
theorem reserve_cases (h : l.WF) (w : WorkIdentity) (d : IngressDelivery) :
    ((l.reserve w d).1 ≠ .reserved ∧ (l.reserve w d).2 = l) ∨
    ((l.reserve w d).1 = .reserved ∧ w.valid = true ∧ isAccepted d = true ∧ l.lookup w = none ∧
      (l.reserve w d).2.WF ∧
      ∀ w', (l.reserve w d).2.lookup w' = if w' = w then some (reservedSlot w d) else l.lookup w') := by
  unfold reserve
  simp only [h.valid, Bool.not_true, Bool.false_eq_true, ite_false]
  split
  · exact Or.inl ⟨by simp, rfl⟩
  rename_i hacc
  simp only [not_or, Bool.not_eq_true', Bool.not_eq_false] at hacc
  split
  · exact Or.inl ⟨by simp, rfl⟩
  rename_i hdup
  have hnone : l.find w = none := by simpa using hdup
  split
  · exact Or.inl ⟨by simp, rfl⟩
  rename_i i hfree
  right
  have hfree' : i < l.capacity.toNat ∧ (l.slot i).key = none := by
    simp only [firstFree] at hfree
    split at hfree
    · cases hfree
    · have hmem := List.mem_of_find?_eq_some hfree
      have htest := List.find?_some hfree
      exact ⟨List.mem_range.1 hmem, by simpa [CompletionLedgerSlot.key] using htest⟩
  obtain ⟨hi, hk⟩ := hfree'
  have hsome := h.slots_isSome hi
  have hnew : (reservedSlot w d).key = some w := rfl
  have habs : ∀ j < l.capacity.toNat, (l.slot j).key ≠ some w := by
    rw [find_eq h] at hnone; exact SlotTable.index_eq_none.1 hnone
  obtain ⟨hd, hget⟩ := SlotTable.get_put h.distinct hi hnew (Or.inl hk) fun j hj _ => habs j hj
  have hslot := slot_setSlot (i := i) (s := reservedSlot w d) hsome
  have hcount := SlotTable.count_put CompletionLedgerSlot.key l.slot (reservedSlot w d) hi
  have hle := SlotTable.count_le CompletionLedgerSlot.key l.capacity.toNat
    (SlotTable.put l.slot i (reservedSlot w d))
  rw [hk, hnew] at hcount
  simp only [Option.isSome_some, Option.isSome_none, ite_true, Bool.false_eq_true, ite_false, Nat.add_zero] at hcount
  have hcap := l.capacity.toNat_lt
  have hsz := h.size_eq
  refine ⟨rfl, hacc.1, hacc.2, (lookup_eq_none_iff h).2 hnone, h.write hi hd ?_ ?_ ?_, ?_⟩
  · rw [UInt16.toNat_add, UInt16.toNat_one]
    omega
  · intro v hv
    rw [hnew] at hv
    cases hv
    exact hacc.1
  · intro hfree
    cases hfree
  · intro w'
    show SlotTable.get _ l.capacity.toNat (l.setSlot i (reservedSlot w d)).slot w' = _
    rw [hslot]
    exact hget w'

theorem summary_spec (h : l.WF) (hl : l.lookup w = some s) : l.summary w = (true, summarize s) := by
  obtain ⟨i, hf, rfl⟩ := (lookup_eq_some_iff h).1 hl
  simp [summary, hf]

theorem release_spec (h : l.WF) (hl : l.lookup w = some s) (hd : (summarize s).drained = true) :
    (l.release w).1 = .released ∧ (l.release w).2.WF ∧
    ∀ w', (l.release w).2.lookup w' = if w' = w then none else l.lookup w' := by
  obtain ⟨i, hf, rfl⟩ := (lookup_eq_some_iff h).1 hl
  have heq : l.release w = (.released, l.releaseSlot i) := by simp [release, hf, hd]
  rw [heq]
  obtain ⟨hwf, _, hget⟩ := releaseSlot_spec h hf
  exact ⟨rfl, hwf, hget⟩

theorem abandon_spec (h : l.WF) (hl : l.lookup w = some s) :
    (l.abandon w).1 = true ∧ (l.abandon w).2.WF ∧
    ∀ w', (l.abandon w).2.lookup w' = if w' = w then none else l.lookup w' := by
  obtain ⟨i, hf, rfl⟩ := (lookup_eq_some_iff h).1 hl
  have heq : l.abandon w = (true, l.releaseSlot i) := by simp [abandon, hf]
  rw [heq]
  obtain ⟨hwf, _, hget⟩ := releaseSlot_spec h hf
  exact ⟨rfl, hwf, hget⟩

end CompletionLedger

end ModbusRTUBridge
