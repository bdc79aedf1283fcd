import ModbusRTUBridge.Search
/-!
# What a validated route table guarantees

`validate` establishes, for each register table, the order the binary search relies on
(`TableOk`); on it, and while every index fits `int16_t`, `locate` finds the one route that
contains an address, and a span `inspectSpan` calls complete is routed address by address.
-/

namespace ModbusRTUBridge

namespace AddressRange

variable {r : AddressRange} {a : UInt16}

/-- What is left of a range from an address in it, as `next` computes it. -/
theorem toNat_available (h : r.contains a = true) : (r.count - (a - r.start)).toNat = r.stop - a.toNat := by
  have hc := (contains_iff _ _).1 h
  have hoff : (a - r.start).toNat = a.toNat - r.start.toNat := toNat_sub_of_le hc.1
  rw [toNat_sub_of_le (by omega), hoff]
  simp only [stop]
  omega

/-- The same, as `inspectSpan` computes it. -/
theorem toNat_untilEnd (h : r.contains a = true) : (r.endAddress - a.toUInt32).toUInt16.toNat = r.stop - a.toNat := by
  have hc := (contains_iff _ _).1 h
  have hend : r.endAddress.toNat = r.stop := toNat_endAddress _
  have hcount := r.count.toNat_lt
  rw [UInt32.toNat_toUInt16, UInt32.toNat_sub_of_le _ _ (by
    rw [UInt32.le_iff_toNat_le, UInt16.toNat_toUInt32, hend]; simp only [stop]; omega), hend, UInt16.toNat_toUInt32]
  simp only [stop]
  omega

end AddressRange

theorem toNat_smaller (x y : UInt16) : (if x < y then x else y).toNat = min x.toNat y.toNat := by
  split <;> rename_i h <;> rw [UInt16.lt_iff_toNat_lt] at h <;> omega

namespace RouteTableView

/-- The part of `validate`'s promise about one register table. -/
structure TableOk (v : RouteTableView) (t : Nat) : Prop where
  counts : ∀ i < v.routeCount.toNat, ((v.route i).upstream t).count = ((v.route i).downstream t).count
  upstream_le : ∀ i < v.routeCount.toNat, ((v.route i).upstream t).stop ≤ 65536
  downstream_le : ∀ i < v.routeCount.toNat, ((v.route i).downstream t).stop ≤ 65536
  sorted : SortedRanges v.routeCount.toNat (fun i => ((v.route i).upstream t).start.toNat)
    (fun i => ((v.route i).upstream t).stop)

/-! ## `validate` -/

/-- What the scan of one table knows after its first `k` routes. -/
structure ScanInv (v : RouteTableView) (t k : Nat) (s : Scan) : Prop where
  counts : ∀ i < k, ((v.route i).upstream t).count = ((v.route i).downstream t).count
  upstream_le : ∀ i < k, ((v.route i).upstream t).stop ≤ 65536
  downstream_le : ∀ i < k, ((v.route i).downstream t).stop ≤ 65536
  sorted : SortedRanges k (fun i => ((v.route i).upstream t).start.toNat) (fun i => ((v.route i).upstream t).stop)
  previous : ∀ i < k, s.havePreviousRoute = true ∧ ((v.route i).upstream t).start.toNat ≤ s.previousStart.toNat
  populated : ∀ i < k, ((v.route i).upstream t).count ≠ 0 →
    s.havePreviousPopulated = true ∧ ((v.route i).upstream t).stop ≤ s.previousPopulatedEnd.toNat

/-- One more range at the end of a sorted sequence. -/
theorem sortedRanges_succ {n : Nat} {start stop : Nat → Nat} (h : SortedRanges n start stop)
    (hasc : ∀ i < n, start i ≤ start n) (hapart : ∀ i < n, start i < stop i → stop i ≤ start n) :
    SortedRanges (n + 1) start stop := by
  constructor
  · intro i j hij hj
    rcases Nat.lt_succ_iff_lt_or_eq.1 hj with hlt | rfl
    · exact h.ascending i j hij hlt
    · exact hasc i hij
  · intro i j hij hj hp
    rcases Nat.lt_succ_iff_lt_or_eq.1 hj with hlt | rfl
    · exact h.apart i j hij hlt hp
    · exact hapart i hij hp

theorem checkRoute_ok {up down : AddressRange} {s s' : Scan} (h : checkRoute up down s = .ok s') :
    up.count = down.count ∧ up.stop ≤ 65536 ∧ down.stop ≤ 65536 ∧
    (s.havePreviousRoute = true → s.previousStart.toNat ≤ up.start.toNat) ∧
    (s.havePreviousPopulated = true → s.previousPopulatedEnd.toNat ≤ up.start.toNat) ∧
    s'.havePreviousRoute = true ∧ s'.previousStart.toNat = up.start.toNat ∧
    (if up.count = 0 then s'.havePreviousPopulated = s.havePreviousPopulated ∧ s'.previousPopulatedEnd = s.previousPopulatedEnd
     else s'.havePreviousPopulated = true ∧ s'.previousPopulatedEnd.toNat = up.stop) := by
  have hup : up.endAddress.toNat = up.stop := up.toNat_endAddress
  have hdown : down.endAddress.toNat = down.stop := down.toNat_endAddress
  unfold checkRoute at h
  split at h
  · cases h
  rename_i hcount
  split at h
  · cases h
  rename_i hend
  simp only [gt_iff_lt, UInt32.lt_iff_toNat_lt, hup, hdown, not_or, Nat.not_lt] at hend
  simp only [UInt32.lt_iff_toNat_lt, UInt16.toNat_toUInt32] at h
  refine ⟨by simpa using hcount, hend.1, hend.2, ?_⟩
  split at h
  · cases h
  rename_i hprev
  split at h
  all_goals
    rename_i hzero
    split at h
    · cases h
    rename_i hpop
    cases h
    refine ⟨fun hp => by simp only [hp, true_and] at hprev; omega, fun hp => by simp only [hp, true_and] at hpop; omega,
      rfl, by simp, ?_⟩
    simp [hzero, hup]

theorem scanInv_step {v : RouteTableView} {t k : Nat} {s s' : Scan} (h : ScanInv v t k s)
    (hc : checkRoute ((v.route k).upstream t) ((v.route k).downstream t) s = .ok s') : ScanInv v t (k + 1) s' := by
  obtain ⟨hcount, hup, hdown, hprev, hpop, hhave, hstart, hcase⟩ := checkRoute_ok hc
  have hsucc : ∀ {P : Nat → Prop}, (∀ i < k, P i) → P k → ∀ i < k + 1, P i := by
    intro P hlt heq i hi
    rcases Nat.lt_succ_iff_lt_or_eq.1 hi with h | rfl
    · exact hlt i h
    · exact heq
  have hlast : ∀ i < k, ((v.route i).upstream t).start.toNat ≤ ((v.route k).upstream t).start.toNat := fun i hi =>
    Nat.le_trans (h.previous i hi).2 (hprev (h.previous i hi).1)
  refine ⟨hsucc h.counts hcount, hsucc h.upstream_le hup, hsucc h.downstream_le hdown,
    sortedRanges_succ h.sorted hlast ?_, hsucc ?_ ?_, hsucc ?_ ?_⟩
  · intro i hi hp
    have hne : ((v.route i).upstream t).count ≠ 0 := fun e => by simp [AddressRange.stop, e] at hp
    obtain ⟨h1, h2⟩ := h.populated i hi hne
    exact Nat.le_trans h2 (hpop h1)
  · exact fun i hi => ⟨hhave, hstart ▸ hlast i hi⟩
  · exact ⟨hhave, Nat.le_of_eq hstart.symm⟩
  · intro i hi hne
    obtain ⟨h1, h2⟩ := h.populated i hi hne
    split at hcase
    · exact ⟨hcase.1.trans h1, by rw [hcase.2]; exact h2⟩
    · refine ⟨hcase.1, ?_⟩
      have := hpop h1
      simp only [hcase.2, AddressRange.stop] at h2 ⊢
      omega
  · intro hne
    rw [if_neg hne] at hcase
    exact ⟨hcase.1, Nat.le_of_eq hcase.2.symm⟩

/-- One turn at the end of the inner loop. -/
theorem scan_succ {v : RouteTableView} {t k : Nat} {r : Except RouteTableStatus Scan}
    (h : (List.range (k + 1)).foldlM (fun s i => checkRoute ((v.route i).upstream t) ((v.route i).downstream t) s)
      ({} : Scan) = r) :
    (∃ e, r = .error e ∧ (List.range k).foldlM
      (fun s i => checkRoute ((v.route i).upstream t) ((v.route i).downstream t) s) ({} : Scan) = .error e) ∨
    (∃ s₀, (List.range k).foldlM
      (fun s i => checkRoute ((v.route i).upstream t) ((v.route i).downstream t) s) ({} : Scan) = .ok s₀ ∧
      checkRoute ((v.route k).upstream t) ((v.route k).downstream t) s₀ = r) := by
  rw [List.range_succ, List.foldlM_append] at h
  cases hpre : (List.range k).foldlM
      (fun s i => checkRoute ((v.route i).upstream t) ((v.route i).downstream t) s) ({} : Scan) with
  | error e => rw [hpre] at h; exact Or.inl ⟨e, h.symm, rfl⟩
  | ok s₀ =>
    rw [hpre] at h
    refine Or.inr ⟨s₀, rfl, ?_⟩
    rw [← h]
    cases hc : checkRoute ((v.route k).upstream t) ((v.route k).downstream t) s₀ <;>
      simp [List.foldlM, bind, Except.bind, pure, Except.pure, hc]

theorem scanInv_fold {v : RouteTableView} {t : Nat} (k : Nat) {s : Scan}
    (h : (List.range k).foldlM (fun s i => checkRoute ((v.route i).upstream t) ((v.route i).downstream t) s) {} = .ok s) :
    ScanInv v t k s := by
  induction k generalizing s with
  | zero =>
    refine ⟨?_, ?_, ?_, ⟨?_, ?_⟩, ?_, ?_⟩ <;> intros <;> omega
  | succ k ih =>
    rcases scan_succ h with ⟨_, he, _⟩ | ⟨s₀, hpre, hone⟩
    · cases he
    · exact scanInv_step (ih hpre) hone

theorem checkRoute_error {up down : AddressRange} {s : Scan} {e : RouteTableStatus}
    (h : checkRoute up down s = .error e) : e ≠ .valid := by
  unfold checkRoute at h
  simp only at h
  repeat' split at h
  all_goals first | injection h with h; subst h; decide | cases h

/-- An early return never says `Valid`. -/
theorem scan_error {v : RouteTableView} {t : Nat} (k : Nat) {e : RouteTableStatus}
    (h : (List.range k).foldlM (fun s i => checkRoute ((v.route i).upstream t) ((v.route i).downstream t) s)
      ({} : Scan) = .error e) : e ≠ .valid := by
  induction k with
  | zero => cases h
  | succ k ih =>
    rcases scan_succ h with ⟨_, he, hpre⟩ | ⟨s₀, _, hone⟩
    · cases he; exact ih hpre
    · exact checkRoute_error hone

/-- The tables are scanned in order, and the first error ends it. -/
theorem scan_tables {v : RouteTableView} (ts : List Nat) {r : Except RouteTableStatus Unit}
    (h : (ts.forM fun t => discard (v.validateTable t)) = r) :
    (∀ e, r = .error e → ∃ t, v.validateTable t = .error e) ∧
    (r = .ok () → ∀ t ∈ ts, ∃ s, v.validateTable t = .ok s) := by
  subst h
  induction ts with
  | nil => exact ⟨fun _ he => (by cases he), fun _ _ ht => (by cases ht)⟩
  | cons a ts ih =>
    have hcons : ((a :: ts).forM fun t => discard (v.validateTable t)) =
        (discard (v.validateTable a) >>= fun _ => ts.forM fun t => discard (v.validateTable t)) := rfl
    cases ha : v.validateTable a with
    | error e =>
      rw [hcons, ha]
      exact ⟨fun _ he => ⟨a, (by cases he; exact ha)⟩, fun he => (by cases he)⟩
    | ok s =>
      rw [hcons, ha]
      refine ⟨ih.1, ?_⟩
      intro hok t ht
      rcases List.mem_cons.1 ht with rfl | ht
      · exact ⟨s, ha⟩
      · exact ih.2 hok t ht

theorem validate_tableOk {v : RouteTableView} (h : v.validate = .valid) {t : Nat} (ht : t < RegisterTable.count) :
    v.TableOk t := by
  have hloop : ∃ s, v.validateTable t = .ok s := by
    unfold validate at h
    split at h
    · cases h
    · split at h
      · rename_i e heq
        obtain ⟨t', ht'⟩ := (scan_tables _ heq).1 e rfl
        exact absurd h (scan_error _ ht')
      · rename_i heq
        exact (scan_tables _ heq).2 rfl t (List.mem_range.2 ht)
  obtain ⟨s, hs⟩ := hloop
  have inv := scanInv_fold _ hs
  exact ⟨inv.counts, inv.upstream_le, inv.downstream_le, inv.sorted⟩

theorem validate_isSome {v : RouteTableView} (h : v.validate = .valid) {i : Nat} (hi : i < v.routeCount.toNat) :
    v.routes.isNone = false := by
  have hne : v.routeCount ≠ 0 := fun e => by simp [e] at hi
  unfold validate at h
  split at h
  · cases h
  · rename_i hn
    cases hr : v.routes.isNone
    · rfl
    · exact absurd ⟨hne, hr⟩ hn

/-! ## `locate` -/

/-- `address` is mapped by route `i`. -/
def Maps (v : RouteTableView) (table : RegisterTable) (address : UInt16) (i : Nat) : Prop :=
  i < v.routeCount.toNat ∧ (v.upstream table i).contains address = true

theorem holds_iff {range : Nat → AddressRange} {a : UInt16} {i : Nat} :
    SortedRanges.Holds (fun i => (range i).start.toNat) (fun i => (range i).stop) a.toNat i ↔
      (range i).contains a = true := by
  rw [AddressRange.contains_iff]; rfl

/-- A correct answer for `a` among `n` ranges: an index that contains it, or none when none does. -/
def Answers (range : Nat → AddressRange) (n : Nat) (a : UInt16) : Option UInt16 → Prop
  | some r => r.toNat < n ∧ (range r.toNat).contains a = true
  | none => ∀ i < n, (range i).contains a = false

/-- **The binary search.** On sorted ranges, with the candidates confined to the bounds, a run
returns a range that contains the address, or there is none. -/
theorem SearchRun.answers {range : Nat → AddressRange} {n : Nat} {a : UInt16} {low high : Int} {reads : List Nat}
    {answer : Option UInt16} (h : SearchRun range a low high reads answer)
    (hsorted : SortedRanges n (fun i => (range i).start.toNat) (fun i => (range i).stop)) (h0 : 0 ≤ low)
    (hhigh : high < n) (hn : n ≤ 32768) (hlast : high = 32767 → a.toNat < (range 32767).stop)
    (hin : ∀ i < n, (range i).contains a = true → low ≤ i ∧ (i : Int) ≤ high) : Answers range n a answer := by
  induction h with
  | ended hle =>
    intro i hi
    apply Bool.eq_false_iff.2
    intro hc
    have := hin i hi hc
    omega
  | @down low high i reads answer hle hi hlt _ ih =>
    obtain ⟨m, hmid, hidx, hlm, hmh, hdown, _⟩ := middle_spec h0 hle (by omega)
    obtain rfl : m = i := hidx.symm.trans hi
    rw [hmid, hdown] at ih
    rw [UInt32.lt_iff_toNat_lt, UInt16.toNat_toUInt32, UInt16.toNat_toUInt32] at hlt
    apply ih h0 (by omega) (by omega)
    intro j hj hc
    have hb := hin j hj hc
    refine ⟨hb.1, Int.not_lt.1 fun hgt => ?_⟩
    exact hsorted.not_holds_of_lt hlt (by omega) hj (holds_iff.2 hc)
  | @up low high i reads answer hle hi hge hend _ ih =>
    obtain ⟨m, hmid, hidx, hlm, hmh, _, hup⟩ := middle_spec h0 hle (by omega)
    obtain rfl : m = i := hidx.symm.trans hi
    have hendAddress : (range m).endAddress.toNat = (range m).stop := AddressRange.toNat_endAddress _
    simp only [ge_iff_le, gt_iff_lt, UInt32.le_iff_toNat_le, UInt32.lt_iff_toNat_lt, UInt16.toNat_toUInt32,
      hendAddress] at hge hend
    have hstop : (range m).stop ≤ a.toNat := by omega
    have hm : m < 32767 := by
      rcases Nat.lt_or_ge m 32767 with hm | hm
      · exact hm
      obtain rfl : m = 32767 := by omega
      have := hlast (by omega)
      omega
    rw [hmid, hup hm] at ih
    apply ih (by omega) hhigh hlast
    intro j hj hc
    have hb := hin j hj hc
    refine ⟨Int.not_lt.1 fun hlt => ?_, hb.2⟩
    exact hsorted.not_holds_of_ge (Nat.le_of_not_lt hge) hstop (by omega) (by omega) (holds_iff.2 hc)
  | @found low high i hle hi hge hlt hpop =>
    obtain ⟨m, _, hidx, hlm, hmh, _⟩ := middle_spec h0 hle (by omega)
    obtain rfl : m = i := hidx.symm.trans hi
    have hendAddress : (range m).endAddress.toNat = (range m).stop := AddressRange.toNat_endAddress _
    have hnat : (UInt16.ofNat m).toNat = m := UInt16.toNat_ofNat_of_lt' (by simp [UInt16.size]; omega)
    simp only [ge_iff_le, UInt32.le_iff_toNat_le, UInt32.lt_iff_toNat_lt, UInt16.toNat_toUInt32, hendAddress] at hge hlt
    simp only [Answers, hnat]
    exact ⟨by omega, holds_iff.1 ⟨Nat.le_of_not_lt hge, Nat.lt_of_not_le hlt⟩⟩

section
variable {v : RouteTableView} (hv : v.validate = .valid) (hn : v.routeCount.toNat ≤ 32767) {t : RegisterTable}
include hv hn

theorem locate_answers (ht : t.index < RegisterTable.count) (a : UInt16) :
    Answers (v.upstream t) v.routeCount.toNat a (v.locate t a) := by
  have ok := validate_tableOk hv ht
  unfold locate
  split
  · rename_i hnone
    intro i hi
    rw [validate_isSome hv hi] at hnone
    cases hnone
  rw [if_neg (by omega)]
  have h1 : toInt16 (v.routeCount.toNat : Int) = v.routeCount.toNat := toInt16_of_bounds (by omega) (by omega)
  have h2 : toInt16 ((v.routeCount.toNat : Int) - 1) = v.routeCount.toNat - 1 := toInt16_of_bounds (by omega) (by omega)
  simp only [h1, h2]
  obtain ⟨reads, answer, hrun, hlen, _⟩ := SearchRun.exists_run (v.upstream t) a v.routeCount.toNat 0
    (v.routeCount.toNat - 1) (by omega) (by omega) (by omega) (by omega)
  rw [hrun.locateLoop_eq (by simp only [locateFuel]; omega)]
  exact hrun.answers ok.sorted (by omega) (by omega) (by omega) (by omega) fun i hi _ => ⟨by omega, by omega⟩

/-- **`locate` finds the route that maps the address.** -/
theorem locate_eq_some (ht : t.index < RegisterTable.count) {a r : UInt16} :
    v.locate t a = some r ↔ v.Maps t a r.toNat := by
  have hcases := locate_answers hv hn ht a
  constructor
  · intro h
    rw [h] at hcases
    exact hcases
  · intro hm
    cases hl : v.locate t a with
    | none =>
      rw [hl] at hcases
      have := (hcases _ hm.1).symm.trans hm.2
      cases this
    | some r' =>
      rw [hl] at hcases
      have := (validate_tableOk hv ht).sorted.holds_unique hcases.1 hm.1 (holds_iff.2 hcases.2) (holds_iff.2 hm.2)
      rw [UInt16.toNat_inj.1 this]

theorem locate_isSome (ht : t.index < RegisterTable.count) {a : UInt16} :
    (v.locate t a).isSome = true ↔ ∃ i, v.Maps t a i := by
  constructor
  · intro h
    obtain ⟨r, hr⟩ := Option.isSome_iff_exists.1 h
    exact ⟨_, (locate_eq_some hv hn ht).1 hr⟩
  · rintro ⟨i, hi⟩
    have hnat : (UInt16.ofNat i).toNat = i := UInt16.toNat_ofNat_of_lt' (by have := hi.1; simp [UInt16.size]; omega)
    rw [(locate_eq_some hv hn ht).2 (hnat.symm ▸ hi : v.Maps t a (UInt16.ofNat i).toNat)]
    rfl

omit hv hn in
/-- `locate` finds nothing in a table that does not exist. -/
theorem index_of_locate {a r : UInt16} (h : v.locate t a = some r) : t.index < RegisterTable.count := by
  unfold locate at h
  split at h
  · cases h
  split at h
  · cases h
  · omega

/-- What `locate` finds maps the address, and its whole range lies inside the address space. -/
theorem maps_of_locate {a r : UInt16} (h : v.locate t a = some r) :
    v.Maps t a r.toNat ∧ (v.upstream t r.toNat).stop ≤ 65536 :=
  have ht := index_of_locate h
  have hm := (locate_eq_some hv hn ht).1 h
  ⟨hm, (validate_tableOk hv ht).upstream_le _ hm.1⟩

/-! ## Spans -/

/-- Every address of `[start, start + count)` is mapped. -/
def Routed (v : RouteTableView) (t : RegisterTable) (start count : Nat) : Prop :=
  ∀ a : UInt16, start ≤ a.toNat → a.toNat < start + count → ∃ r, v.locate t a = some r

omit hv hn in
theorem Routed.mono {start count start' count' : Nat} (h : v.Routed t start count) (h1 : start ≤ start')
    (h2 : start' + count' ≤ start + count) : v.Routed t start' count' :=
  fun a ha hb => h a (by omega) (by omega)

/-- Within one located route every address is routed. -/
theorem routed_of_locate {a r : UInt16} (h : v.locate t a = some r)
    {count : Nat} (hc : a.toNat + count ≤ (v.upstream t r.toNat).stop) : v.Routed t a.toNat count := by
  intro b hab hb
  obtain ⟨hm, _⟩ := maps_of_locate hv hn h
  have hm2 := (AddressRange.contains_iff _ _).1 hm.2
  refine ⟨r, (locate_eq_some hv hn (index_of_locate h)).2 ⟨hm.1, (AddressRange.contains_iff _ _).2 ⟨by omega, ?_⟩⟩⟩
  simp only [AddressRange.stop] at hc
  omega

omit hv hn in
theorem routed_append {start n m : Nat} (h1 : v.Routed t start n) (h2 : v.Routed t (start + n) m) :
    v.Routed t start (n + m) := by
  intro a ha hb
  rcases Nat.lt_or_ge a.toNat (start + n) with hlt | hge
  · exact h1 a ha hlt
  · exact h2 a hge (by omega)

/-- The first chunk of a span and the rest of it. -/
theorem routed_chunk {a r : UInt16} (h : v.locate t a = some r) {n k : Nat}
    (hk : k = min n ((v.upstream t r.toNat).stop - a.toNat)) :
    v.Routed t a.toNat n ↔ v.Routed t (a.toNat + k) (n - k) := by
  constructor
  · intro hall
    exact hall.mono (by omega) (by omega)
  · intro hrest
    obtain ⟨hm, _⟩ := maps_of_locate hv hn h
    have hc := (AddressRange.contains_iff _ _).1 hm.2
    have hfirst : v.Routed t a.toNat k := by
      refine routed_of_locate hv hn h ?_
      simp only [AddressRange.stop] at hk ⊢
      omega
    exact (routed_append hfirst hrest).mono (Nat.le_refl _) (by omega)

/-- **The coverage loop** ends with `Complete` exactly on a routed span, and with `Gap` otherwise. -/
theorem inspectLoop_spec (fuel : Nat) {current remaining : UInt16}
    (hfuel : remaining.toNat ≤ fuel) (hsum : current.toNat + remaining.toNat ≤ 65536) :
    (v.inspectLoop t fuel current remaining = .complete ↔ v.Routed t current.toNat remaining.toNat) ∧
    (v.inspectLoop t fuel current remaining = .complete ∨ v.inspectLoop t fuel current remaining = .gap) := by
  have hzero : ∀ current remaining : UInt16, remaining = 0 → v.Routed t current.toNat remaining.toNat := by
    intro current remaining h0 a ha hb
    rw [h0] at hb
    simp at hb
    omega
  induction fuel generalizing current remaining with
  | zero =>
    obtain rfl : remaining = 0 := UInt16.toNat_inj.1 (Nat.le_zero.1 hfuel)
    simpa [inspectLoop] using hzero current 0 rfl
  | succ fuel ih =>
    unfold inspectLoop
    by_cases h0 : remaining = 0
    · simpa [h0] using hzero current remaining h0
    rw [if_neg h0]
    have hpos := toNat_pos.2 h0
    cases hl : v.locate t current with
    | none =>
      simp only [reduceCtorEq, false_iff, or_true, and_true]
      intro hall
      obtain ⟨r, hr⟩ := hall current (Nat.le_refl _) (by omega)
      rw [hl] at hr
      cases hr
    | some r =>
      obtain ⟨hm, hstop⟩ := maps_of_locate hv hn hl
      have hc := (AddressRange.contains_iff _ _).1 hm.2
      simp only
      generalize hchunk : (if remaining < ((v.upstream t r.toNat).endAddress - current.toUInt32).toUInt16 then remaining
        else ((v.upstream t r.toNat).endAddress - current.toUInt32).toUInt16) = chunk
      have hk : chunk.toNat = min remaining.toNat ((v.upstream t r.toNat).stop - current.toNat) := by
        rw [← hchunk, toNat_smaller, AddressRange.toNat_untilEnd hm.2]
      have hkpos : 0 < chunk.toNat := by simp only [AddressRange.stop] at hk; omega
      have hsub : (remaining - chunk).toNat = remaining.toNat - chunk.toNat := toNat_sub_of_le (by omega)
      rw [routed_chunk hv hn hl hk]
      by_cases hlast : remaining.toNat = chunk.toNat
      · -- the whole span is done, and the next address may be 65536
        have hrest : remaining - chunk = 0 := UInt16.toNat_inj.1 (by rw [hsub, hlast]; simp)
        have hdone : ∀ n c, v.inspectLoop t n c 0 = .complete := by
          intro n c
          cases n <;> simp [inspectLoop]
        rw [hrest, hdone, hlast]
        refine ⟨⟨fun _ a ha hb => ?_, fun _ => rfl⟩, Or.inl rfl⟩
        omega
      · have hadd : (current + chunk).toNat = current.toNat + chunk.toNat := toNat_add_of_lt (by omega)
        have hless : (remaining - chunk).toNat ≤ fuel := by omega
        have hrest : (current + chunk).toNat + (remaining - chunk).toNat ≤ 65536 := by omega
        have hnext := ih hless hrest
        rwa [hadd, hsub] at hnext

/-- **`inspectSpan`, case by case.** -/
theorem inspectSpan_cases (t : RegisterTable) (start count : UInt16) :
    (count = 0 ∧ v.inspectSpan t start count = .empty) ∨
    (count ≠ 0 ∧ 65536 < start.toNat + count.toNat ∧ v.inspectSpan t start count = .addressOverflow) ∨
    (count ≠ 0 ∧ start.toNat + count.toNat ≤ 65536 ∧ v.Routed t start.toNat count.toNat ∧
      v.inspectSpan t start count = .complete) ∨
    (count ≠ 0 ∧ start.toNat + count.toNat ≤ 65536 ∧ ¬ v.Routed t start.toNat count.toNat ∧
      v.inspectSpan t start count = .gap) := by
  have h1 := start.toNat_lt
  have h2 := count.toNat_lt
  have hsum : (start.toUInt32 + count.toUInt32).toNat = start.toNat + count.toNat := by
    simp only [UInt32.toNat_add, UInt16.toNat_toUInt32]; omega
  unfold inspectSpan
  by_cases h0 : count = 0
  · exact Or.inl ⟨h0, if_pos h0⟩
  rw [if_neg h0]
  simp only [gt_iff_lt, UInt32.lt_iff_toNat_lt, hsum]
  by_cases hover : 65536 < start.toNat + count.toNat
  · exact Or.inr (Or.inl ⟨h0, hover, if_pos hover⟩)
  have hle : start.toNat + count.toNat ≤ 65536 := Nat.le_of_not_lt hover
  have hfits : ¬ (65536 : UInt32).toNat < start.toNat + count.toNat := hover
  rw [if_neg hfits]
  obtain ⟨hiff, hcases⟩ := inspectLoop_spec hv hn count.toNat (Nat.le_refl _) hle
  rcases hcases with h | h
  · exact Or.inr (Or.inr (Or.inl ⟨h0, hle, hiff.1 h, h⟩))
  · refine Or.inr (Or.inr (Or.inr ⟨h0, hle, fun hr => ?_, h⟩))
    rw [hiff.2 hr] at h
    cases h

/-- **A span the preflight calls complete is routed address by address** and does not wrap. -/
theorem inspectSpan_complete {start count : UInt16} :
    v.inspectSpan t start count = .complete ↔
      count ≠ 0 ∧ start.toNat + count.toNat ≤ 65536 ∧ v.Routed t start.toNat count.toNat := by
  rcases inspectSpan_cases hv hn t start count with ⟨h0, h⟩ | ⟨h0, hover, h⟩ | ⟨h0, hle, hr, h⟩ | ⟨h0, hle, hr, h⟩
  · simp only [h, reduceCtorEq, false_iff]
    exact fun hall => hall.1 h0
  · simp only [h, reduceCtorEq, false_iff]
    omega
  · simp [h, h0, hle, hr]
  · simp [h, hr]

end

end RouteTableView

end ModbusRTUBridge
