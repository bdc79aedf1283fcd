import ModbusRTUBridge.Locate
/-!
# What `validate` accepts

`validate` makes one pass over each register table and compares every route with the last start
and the last populated end only. That pass accepts exactly the tables whose routes are in order
pair by pair: `Locate.lean` reads the order off an accepted table, here an ordered table is shown
to pass.
-/

namespace ModbusRTUBridge

namespace RouteTableView

variable {v : RouteTableView} {t k : Nat}

/-- What the pass carries comes from a route it has seen. -/
structure ScanFrom (v : RouteTableView) (t k : Nat) (s : Scan) : Prop where
  previous : s.havePreviousRoute = true → ∃ i < k, s.previousStart.toNat = ((v.route i).upstream t).start.toNat
  populated : s.havePreviousPopulated = true → ∃ i < k,
    ((v.route i).upstream t).count ≠ 0 ∧ s.previousPopulatedEnd.toNat = ((v.route i).upstream t).stop

/-- What the pass carries past a route it let through. -/
def Scan.past (s : Scan) (up : AddressRange) : Scan :=
  if up.count = 0 then { s with previousStart := up.start.toUInt32, havePreviousRoute := true }
  else ⟨up.start.toUInt32, up.endAddress, true, true⟩

theorem ScanFrom.past {s : Scan} (h : v.ScanFrom t k s) : v.ScanFrom t (k + 1) (s.past ((v.route k).upstream t)) := by
  unfold Scan.past
  constructor
  · intro _
    refine ⟨k, Nat.lt_succ_self k, ?_⟩
    split <;> simp
  · intro hh
    by_cases hzero : ((v.route k).upstream t).count = 0
    · rw [if_pos hzero] at hh ⊢
      obtain ⟨i, hi, hne, heq⟩ := h.populated hh
      exact ⟨i, Nat.lt_succ_of_lt hi, hne, heq⟩
    · rw [if_neg hzero]
      exact ⟨k, Nat.lt_succ_self k, hzero, AddressRange.toNat_endAddress _⟩

/-- A route that starts at or after everything carried passes every check. -/
theorem checkRoute_pass {up down : AddressRange} {s : Scan} (hcount : up.count = down.count) (hup : up.stop ≤ 65536)
    (hdown : down.stop ≤ 65536) (hprev : s.havePreviousRoute = true → s.previousStart.toNat ≤ up.start.toNat)
    (hpop : s.havePreviousPopulated = true → s.previousPopulatedEnd.toNat ≤ up.start.toNat) :
    checkRoute up down s = .ok (s.past up) := by
  have hupEnd : up.endAddress.toNat = up.stop := up.toNat_endAddress
  have hdownEnd : down.endAddress.toNat = down.stop := down.toNat_endAddress
  have h1 : ¬ (up.endAddress > 0x10000 ∨ down.endAddress > 0x10000) := by
    simp only [gt_iff_lt, UInt32.lt_iff_toNat_lt, hupEnd, hdownEnd, not_or, Nat.not_lt]
    exact ⟨hup, hdown⟩
  have h2 : ¬ (s.havePreviousRoute = true ∧ up.start.toUInt32 < s.previousStart) := by
    rintro ⟨hh, hlt⟩
    have := hprev hh
    rw [UInt32.lt_iff_toNat_lt, UInt16.toNat_toUInt32] at hlt
    omega
  have h3 : ¬ (s.havePreviousPopulated = true ∧ up.start.toUInt32 < s.previousPopulatedEnd) := by
    rintro ⟨hh, hlt⟩
    have := hpop hh
    rw [UInt32.lt_iff_toNat_lt, UInt16.toNat_toUInt32] at hlt
    omega
  unfold checkRoute Scan.past
  simp only [hcount, ne_eq, not_true_eq_false, if_false, if_neg h1, if_neg h2, if_neg h3]
  split <;> rfl

/-- The pass goes through an ordered table. -/
theorem scan_ok (h : v.TableOk t) : ∀ k ≤ v.routeCount.toNat, ∃ s, (List.range k).foldlM
    (fun s i => checkRoute ((v.route i).upstream t) ((v.route i).downstream t) s) ({} : Scan) = .ok s ∧
    v.ScanFrom t k s := by
  intro k
  induction k with
  | zero => exact fun _ => ⟨{}, rfl, fun h => (by cases h), fun h => (by cases h)⟩
  | succ k ih =>
    intro hk
    obtain ⟨s, hs, hfrom⟩ := ih (by omega)
    have hprev : s.havePreviousRoute = true → s.previousStart.toNat ≤ ((v.route k).upstream t).start.toNat := by
      intro hh
      obtain ⟨i, hi, heq⟩ := hfrom.previous hh
      rw [heq]
      exact h.sorted.ascending i k hi hk
    have hpop : s.havePreviousPopulated = true →
        s.previousPopulatedEnd.toNat ≤ ((v.route k).upstream t).start.toNat := by
      intro hh
      obtain ⟨i, hi, hne, heq⟩ := hfrom.populated hh
      rw [heq]
      have hpos : 0 < ((v.route i).upstream t).count.toNat := toNat_pos.2 hne
      exact h.sorted.apart i k hi hk (by simp only [AddressRange.stop]; omega)
    have hstep := checkRoute_pass (h.counts k hk) (h.upstream_le k hk) (h.downstream_le k hk) hprev hpop
    refine ⟨_, ?_, hfrom.past⟩
    rw [List.range_succ, List.foldlM_append, hs]
    simp only [bind, Except.bind, List.foldlM, hstep]
    rfl

/-- Every table ordered, and somewhere to read the routes from: `Valid`. -/
theorem validate_of_tableOk (hstorage : v.routes.isNone = false ∨ v.routeCount = 0)
    (h : ∀ t < RegisterTable.count, v.TableOk t) : v.validate = .valid := by
  have hscans : ∀ ts : List Nat, (∀ t ∈ ts, t < RegisterTable.count) →
      (ts.forM fun t => discard (v.validateTable t)) = .ok () := by
    intro ts
    induction ts with
    | nil => exact fun _ => rfl
    | cons a ts ih =>
      intro hts
      obtain ⟨s, hs, _⟩ := scan_ok (h a (hts a List.mem_cons_self)) _ (Nat.le_refl _)
      have hcons : ((a :: ts).forM fun t => discard (v.validateTable t)) =
          (discard (v.validateTable a) >>= fun _ => ts.forM fun t => discard (v.validateTable t)) := rfl
      have ha : v.validateTable a = .ok s := hs
      rw [hcons, ha]
      exact ih fun t ht => hts t (List.mem_cons_of_mem _ ht)
  have hnull : ¬ (v.routeCount ≠ 0 ∧ v.routes.isNone = true) := by
    rintro ⟨h1, h2⟩
    rcases hstorage with h | h
    · rw [h] at h2; cases h2
    · exact h1 h
  unfold validate
  rw [if_neg hnull, hscans _ fun t ht => List.mem_range.1 ht]

theorem validate_valid_iff : v.validate = .valid ↔
    (v.routes.isNone = false ∨ v.routeCount = 0) ∧ ∀ t < RegisterTable.count, v.TableOk t := by
  constructor
  · intro h
    refine ⟨?_, fun t ht => validate_tableOk h ht⟩
    by_cases hzero : v.routeCount = 0
    · exact Or.inr hzero
    · exact Or.inl (validate_isSome h (i := 0) (toNat_pos.2 hzero))
  · rintro ⟨hstorage, h⟩
    exact validate_of_tableOk hstorage h

/-- **`validate` accepts exactly the globally ordered tables.** -/
theorem validate_accepts_ordered (v : RouteTableView) : v.validate = .valid ↔
    (v.routes.isNone = false ∨ v.routeCount = 0) ∧
    ∀ t < RegisterTable.count,
      (∀ i < v.routeCount.toNat,
        ((v.route i).upstream t).count = ((v.route i).downstream t).count ∧
        ((v.route i).upstream t).endAddress ≤ 0x10000 ∧ ((v.route i).downstream t).endAddress ≤ 0x10000) ∧
      ∀ i j, i < j → j < v.routeCount.toNat →
        ((v.route i).upstream t).start ≤ ((v.route j).upstream t).start ∧
        (((v.route i).upstream t).count ≠ 0 →
          ((v.route i).upstream t).endAddress ≤ ((v.route j).upstream t).start.toUInt32) := by
  have hend : ∀ r : AddressRange, r.endAddress.toNat = r.stop := AddressRange.toNat_endAddress
  have hpos : ∀ r : AddressRange, r.count ≠ 0 ↔ r.start.toNat < r.stop := by
    intro r
    rw [ne_eq, ← UInt16.toNat_inj]
    simp only [AddressRange.stop, UInt16.toNat_zero]
    omega
  simp only [UInt32.le_iff_toNat_le, UInt16.le_iff_toNat_le, UInt16.toNat_toUInt32, hend, hpos]
  rw [validate_valid_iff]
  refine and_congr_right fun _ => forall₂_congr fun t _ => ?_
  constructor
  · intro h
    constructor
    · intro i hi
      exact ⟨h.counts i hi, h.upstream_le i hi, h.downstream_le i hi⟩
    · intro i j hij hj
      exact ⟨h.sorted.ascending i j hij hj, h.sorted.apart i j hij hj⟩
  · rintro ⟨hranges, hpairs⟩
    refine ⟨fun i hi => (hranges i hi).1, fun i hi => (hranges i hi).2.1, fun i hi => (hranges i hi).2.2, ?_, ?_⟩
    · intro i j hij hj
      exact (hpairs i j hij hj).1
    · intro i j hij hj
      exact (hpairs i j hij hj).2

end RouteTableView

end ModbusRTUBridge
