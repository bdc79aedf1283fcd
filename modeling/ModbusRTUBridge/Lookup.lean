import ModbusRTUBridge.Validation
/-!
# Lookups on large tables

The route count is a `uint16_t`, the bounds of the search are `int16_t`. Up to 32767 routes every
lookup on a validated table is right. With 32768 routes the upper bound still comes out as 32767,
but an address past the last range drives the lower bound over the edge and the search reads entry
65535. With more routes the upper bound is negative and nothing is ever found.
-/

namespace ModbusRTUBridge

namespace RouteTableView

/-- One execution of `locate`: the route entries it reads, in order, and what it returns. -/
def LocateRun (v : RouteTableView) (t : RegisterTable) (a : UInt16) (reads : List Nat) (answer : Option UInt16) : Prop :=
  if v.routes.isNone ∨ t.index ≥ RegisterTable.count then reads = [] ∧ answer = none
  else SearchRun (v.upstream t) a 0 (toInt16 (toInt16 v.routeCount.toNat - 1)) reads answer

/-- What a lookup owes: it ends, `locate` returns its answer, it reads entries of the table only,
and it answers with the one route that contains the address, or `false` when none does. -/
def LooksUp (v : RouteTableView) (t : RegisterTable) (a : UInt16) : Prop :=
  ∃ reads answer, v.LocateRun t a reads answer ∧ v.locate t a = answer ∧ (∀ i ∈ reads, i < v.routeCount.toNat) ∧
    (∀ r, answer = some r ↔ v.Maps t a r.toNat) ∧ (∀ r, answer = some r → ∀ i, v.Maps t a i → i = r.toNat) ∧
    (answer = none ↔ ∀ i, ¬ v.Maps t a i)

/-- The search for `a` neither leaves the `int16_t` range nor misses a route. -/
def SearchableAt (v : RouteTableView) (t : RegisterTable) (a : UInt16) : Prop :=
  v.routeCount.toNat ≤ 32767 ∨
  (v.routeCount.toNat = 32768 ∧ a.toNat < (v.upstream t 32767).stop) ∨
  (32768 < v.routeCount.toNat ∧ ∀ i < v.routeCount.toNat, (v.upstream t i).contains a = false)

/-- The tables on which no search does. -/
def Searchable (v : RouteTableView) : Prop :=
  v.routeCount.toNat ≤ 32767 ∨
  (v.routeCount.toNat = 32768 ∧ ∀ t, t.index < RegisterTable.count → (v.upstream t 32767).stop = 65536) ∨
  (32768 < v.routeCount.toNat ∧
    ∀ t, t.index < RegisterTable.count → ∀ i < v.routeCount.toNat, (v.upstream t i).count = 0)

variable {v : RouteTableView} {t : RegisterTable} {a : UInt16} {reads : List Nat} {answer : Option UInt16}

/-! ## The upper bound of the search -/

/-- What is left of `routeCount` after both conversions. -/
theorem initial_high (n : Nat) (hn : n < 65536) :
    toInt16 (toInt16 n - 1) = if n ≤ 32768 then (n : Int) - 1 else (n : Int) - 65537 := by
  unfold toInt16
  split
  · rcases Nat.lt_or_eq_of_le (by assumption) with hlt | rfl
    · rw [Int.bmod_eq_of_le (n := (n : Int)) (by omega) (by omega), Int.bmod_eq_of_le (by omega) (by omega)]
    · rfl
  · have : Int.bmod (n : Int) 65536 = n - 65536 := by
      simp only [Int.bmod]
      omega
    rw [this, Int.bmod_eq_of_le (by omega) (by omega)]
    omega

theorem locateRun_iff (hsome : v.routes.isNone = false) (ht : t.index < RegisterTable.count) :
    v.LocateRun t a reads answer ↔
      SearchRun (v.upstream t) a 0 (toInt16 (toInt16 v.routeCount.toNat - 1)) reads answer := by
  unfold LocateRun
  rw [if_neg]
  simp only [hsome, Bool.false_eq_true, false_or, Nat.not_le]
  exact ht

/-- A run of `locate` gives what `locate` returns. -/
theorem locate_of_run (h : v.LocateRun t a reads answer) (hlen : reads.length < locateFuel) : v.locate t a = answer := by
  unfold LocateRun at h
  unfold locate
  split at h
  · rename_i hbad
    rw [h.2]
    rcases hbad with hbad | hbad
    · rw [if_pos hbad]
    · rw [if_pos hbad]
      split <;> rfl
  · rename_i hgood
    simp only [not_or] at hgood
    rw [if_neg hgood.1, if_neg hgood.2]
    exact h.locateLoop_eq hlen

/-! ## Where lookups are right -/

/-- A run with a correct answer is a correct lookup. -/
theorem looksUp_of_run (hv : v.validate = .valid) (ht : t.index < RegisterTable.count)
    (hrun : v.LocateRun t a reads answer) (hlen : reads.length < locateFuel) (hreads : ∀ i ∈ reads, i < v.routeCount.toNat)
    (hans : Answers (v.upstream t) v.routeCount.toNat a answer) : v.LooksUp t a := by
  have hunique : ∀ i j, v.Maps t a i → v.Maps t a j → i = j := fun i j hi hj =>
    (validate_tableOk hv ht).sorted.holds_unique hi.1 hj.1 (holds_iff.2 hi.2) (holds_iff.2 hj.2)
  refine ⟨reads, answer, hrun, locate_of_run hrun hlen, hreads, ?_⟩
  cases answer with
  | none =>
    have hnone : ∀ i, ¬ v.Maps t a i := by
      intro i hi
      have := (hans i hi.1).symm.trans hi.2
      cases this
    refine ⟨?_, fun r hr => (by cases hr), ?_⟩
    · intro r
      exact ⟨fun hr => (by cases hr), fun hr => absurd hr (hnone _)⟩
    · exact ⟨fun _ => hnone, fun _ => rfl⟩
  | some r =>
    refine ⟨?_, ?_, ?_⟩
    · intro r'
      constructor
      · intro hr
        cases hr
        exact hans
      · intro hm
        rw [UInt16.toNat_inj.1 (hunique _ _ hans hm)]
    · intro r' hr i hi
      cases hr
      exact hunique _ _ hi hans
    · exact ⟨fun hr => (by cases hr), fun hr => absurd hans (hr _)⟩

/-- Up to 32768 routes, unless the search goes up from the last one. -/
theorem looksUp_of_le (hv : v.validate = .valid) (ht : t.index < RegisterTable.count) (hn : v.routeCount.toNat ≤ 32768)
    (hlast : v.routeCount.toNat = 32768 → a.toNat < (v.upstream t 32767).stop) : v.LooksUp t a := by
  by_cases hzero : v.routeCount.toNat = 0
  · have hnone : Answers (v.upstream t) v.routeCount.toNat a none := fun i hi => by omega
    by_cases hsome : v.routes.isNone = false
    · refine looksUp_of_run hv ht ((locateRun_iff hsome ht).2 (.ended ?_)) (by decide) (by simp) hnone
      rw [hzero]
      decide
    · have hrun : v.LocateRun t a [] none := by
        unfold LocateRun
        rw [if_pos (Or.inl (by simpa using hsome))]
        exact ⟨rfl, rfl⟩
      exact looksUp_of_run hv ht hrun (by decide) (by simp) hnone
  have hsome := validate_isSome hv (i := 0) (by omega)
  have hhigh := initial_high v.routeCount.toNat v.routeCount.toNat_lt
  rw [if_pos hn] at hhigh
  obtain ⟨reads, answer, hrun, hlen, hin⟩ := SearchRun.exists_run (v.upstream t) a v.routeCount.toNat 0
    (v.routeCount.toNat - 1) (by omega) (by omega) (fun _ => hlast (by omega)) (by omega)
  refine looksUp_of_run hv ht ((locateRun_iff hsome ht).2 (hhigh ▸ hrun)) (by simp only [locateFuel]; omega) ?_ ?_
  · intro i hi
    have := hin i hi
    omega
  · exact hrun.answers (validate_tableOk hv ht).sorted (by omega) (by omega) hn
      (fun _ => hlast (by omega)) fun i hi _ => ⟨by omega, by omega⟩

/-- Past 32768 routes the search is over before it starts. -/
theorem locateRun_of_gt (hsome : v.routes.isNone = false) (ht : t.index < RegisterTable.count)
    (hn : 32768 < v.routeCount.toNat) : v.LocateRun t a [] none := by
  rw [locateRun_iff hsome ht, initial_high _ v.routeCount.toNat_lt, if_neg (by omega)]
  have := v.routeCount.toNat_lt
  exact .ended (by omega)

/-! ## Where they are not -/

/-- **Over the edge.** Driven past the last of 32768 ranges, the lower bound wraps to -32768 and
the next entry read is 65535. -/
theorem SearchRun.wraps {range : Nat → AddressRange} {low high : Int} (h : SearchRun range a low high reads answer)
    (h0 : 0 ≤ low) (hle : low ≤ high) (hhigh : high = 32767)
    (hpast : ∀ i : Nat, (i : Int) ≤ high → (range i).start.toNat ≤ a.toNat ∧ (range i).stop ≤ a.toNat) : 65535 ∈ reads := by
  induction h with
  | ended hno => exact absurd hle hno
  | @down low high i reads answer _ hi hlt _ _ =>
    obtain ⟨m, _, hidx, _, hmh, _⟩ := middle_spec h0 hle (by omega)
    obtain rfl : m = i := hidx.symm.trans hi
    have := hpast m hmh
    rw [UInt32.lt_iff_toNat_lt, UInt16.toNat_toUInt32, UInt16.toNat_toUInt32] at hlt
    omega
  | @up low high i reads answer _ hi _ _ rest ih =>
    obtain ⟨m, hmid, hidx, hlm, hmh, _, hup⟩ := middle_spec h0 hle (by omega)
    apply List.mem_cons_of_mem
    rcases Nat.lt_or_ge m 32767 with hm | hm
    · rw [hmid, hup hm] at ih
      exact ih (by omega) (by omega) hhigh hpast
    · obtain rfl : m = 32767 := by omega
      rw [hmid, hhigh] at rest
      have hwrap : toIndex (middle (toInt16 ((32767 : Nat) + 1)) 32767) = 65535 := by decide
      have hbounds : toInt16 ((32767 : Nat) + 1) ≤ 32767 := by decide
      cases rest with
      | ended hno => exact absurd hbounds hno
      | down _ hi' => rw [← hi', hwrap]; exact List.mem_cons_self
      | up _ hi' => rw [← hi', hwrap]; exact List.mem_cons_self
      | found _ hi' => rw [← hi', hwrap]; exact List.mem_cons_self
  | @found low high i _ hi _ hlt _ =>
    obtain ⟨m, _, hidx, _, hmh, _⟩ := middle_spec h0 hle (by omega)
    obtain rfl : m = i := hidx.symm.trans hi
    have hendAddress : (range m).endAddress.toNat = (range m).stop := AddressRange.toNat_endAddress _
    have := hpast m hmh
    rw [ge_iff_le, UInt32.le_iff_toNat_le, hendAddress, UInt16.toNat_toUInt32] at hlt
    omega

/-- An address past the last of 32768 routes is not looked up. -/
theorem not_looksUp_past (hv : v.validate = .valid) (ht : t.index < RegisterTable.count) (hn : v.routeCount.toNat = 32768)
    (ha : (v.upstream t 32767).stop ≤ a.toNat) : ¬ v.LooksUp t a := by
  rintro ⟨reads, answer, hrun, _, hreads, _⟩
  have hsorted := (validate_tableOk hv ht).sorted
  have hsome := validate_isSome hv (i := 0) (by omega)
  rw [locateRun_iff hsome ht, initial_high _ v.routeCount.toNat_lt, if_pos (by omega), hn] at hrun
  have hmem := hrun.wraps (Int.le_refl 0) (by decide) (by decide) fun (i : Nat) hi => by
    have hle : (v.upstream t i).start.toNat ≤ (v.upstream t 32767).start.toNat := by
      rcases Nat.lt_or_ge i 32767 with hlt | hge
      · exact hsorted.ascending i 32767 hlt (by omega)
      · obtain rfl : i = 32767 := by omega
        exact Nat.le_refl _
    have hstop : ∀ r : AddressRange, r.start.toNat ≤ r.stop := fun r => Nat.le_add_right _ _
    have hlast := hstop (v.upstream t 32767)
    refine ⟨by omega, ?_⟩
    rcases Nat.lt_or_ge i 32767 with hlt | hge
    · by_cases hpop : (v.upstream t i).start.toNat < (v.upstream t i).stop
      · have := hsorted.apart i 32767 hlt (by omega) hpop
        have : (v.upstream t i).stop ≤ (v.upstream t 32767).start.toNat := this
        omega
      · omega
    · obtain rfl : i = 32767 := by omega
      exact ha
  have := hreads _ hmem
  omega

/-- Past 32768 routes nothing is found that is there. -/
theorem not_looksUp_gt (hv : v.validate = .valid) (ht : t.index < RegisterTable.count) (hn : 32768 < v.routeCount.toNat)
    {i : Nat} (hm : v.Maps t a i) : ¬ v.LooksUp t a := by
  rintro ⟨reads, answer, hrun, _, _, _, _, hnone⟩
  have hsome := validate_isSome hv hm.1
  rw [locateRun_iff hsome ht] at hrun
  have hempty := (locateRun_iff (a := a) hsome ht).1 (locateRun_of_gt hsome ht hn)
  exact hnone.1 (hrun.unique hempty).2 i hm

/-- **One address**: the lookup is right exactly if it is searchable. -/
theorem looksUp_iff (hv : v.validate = .valid) (ht : t.index < RegisterTable.count) (a : UInt16) :
    v.LooksUp t a ↔ v.SearchableAt t a := by
  constructor
  · intro h
    rcases Nat.lt_trichotomy v.routeCount.toNat 32768 with hn | hn | hn
    · exact Or.inl (by omega)
    · exact Or.inr (Or.inl ⟨hn, Nat.lt_of_not_le fun hpast => not_looksUp_past hv ht hn hpast h⟩)
    · refine Or.inr (Or.inr ⟨hn, fun i hi => ?_⟩)
      rw [Bool.eq_false_iff]
      intro hc
      exact not_looksUp_gt hv ht hn ⟨hi, hc⟩ h
  · rintro (hn | ⟨hn, hlast⟩ | ⟨hn, hnone⟩)
    · exact looksUp_of_le hv ht (by omega) fun e => by omega
    · exact looksUp_of_le hv ht (by omega) fun _ => hlast
    · have hsome := validate_isSome hv (i := 0) (by omega)
      exact looksUp_of_run hv ht (locateRun_of_gt hsome ht hn) (by decide) (by simp) hnone

/-- On a searchable table every address is, and on no other. -/
theorem searchable_iff (hv : v.validate = .valid) :
    (∀ t, t.index < RegisterTable.count → ∀ a, v.SearchableAt t a) ↔ v.Searchable := by
  have hstop : ∀ t : RegisterTable, t.index < RegisterTable.count → v.routeCount.toNat = 32768 →
      (v.upstream t 32767).stop ≤ 65536 := fun t ht hn => (validate_tableOk hv ht).upstream_le 32767 (by omega)
  constructor
  · intro h
    rcases Nat.lt_trichotomy v.routeCount.toNat 32768 with hn | hn | hn
    · exact Or.inl (by omega)
    · refine Or.inr (Or.inl ⟨hn, fun t ht => ?_⟩)
      -- the highest address decides
      have hle := hstop t ht hn
      rcases h t ht 65535 with hno | ⟨_, hlt⟩ | ⟨hno, _⟩
      · omega
      · have hlt : 65535 < (v.upstream t 32767).stop := hlt
        omega
      · omega
    · refine Or.inr (Or.inr ⟨hn, fun t ht i hi => ?_⟩)
      refine Decidable.byContradiction fun hne => ?_
      have hpos : 0 < (v.upstream t i).count.toNat := toNat_pos.2 hne
      rcases h t ht (v.upstream t i).start with hno | ⟨hno, _⟩ | ⟨_, hnone⟩
      · omega
      · omega
      · have hc := hnone i hi
        rw [Bool.eq_false_iff, ne_eq, AddressRange.contains_iff] at hc
        omega
  · rintro (hn | ⟨hn, hlast⟩ | ⟨hn, hempty⟩) t ht a
    · exact Or.inl hn
    · have ha := a.toNat_lt
      exact Or.inr (Or.inl ⟨hn, by rw [hlast t ht]; omega⟩)
    · refine Or.inr (Or.inr ⟨hn, fun i hi => ?_⟩)
      rw [Bool.eq_false_iff, ne_eq, AddressRange.contains_iff, hempty t ht i hi]
      simp

/-- **Lookups are right at exactly the searchable addresses**, and all of them on exactly the
searchable tables. -/
theorem lookup_correct_iff (hv : v.validate = .valid) :
    (∀ t, t.index < RegisterTable.count → ∀ a, v.LooksUp t a ↔ v.SearchableAt t a) ∧
    ((∀ t, t.index < RegisterTable.count → ∀ a, v.LooksUp t a) ↔ v.Searchable) := by
  have hat : ∀ t, t.index < RegisterTable.count → ∀ a, v.LooksUp t a ↔ v.SearchableAt t a :=
    fun t ht a => looksUp_iff hv ht a
  refine ⟨hat, Iff.trans ?_ (searchable_iff hv)⟩
  exact forall_congr' fun t => forall_congr' fun ht => forall_congr' (hat t ht)

/-- One populated route in front of 32768 empty ones. -/
def crowdedTable : RouteTableView :=
  { routes := some fun i =>
      let range : AddressRange := if i = 0 then ⟨0, 1⟩ else ⟨1, 0⟩
      ⟨1, fun _ => range, fun _ => range⟩
    routeCount := 32769 }

theorem crowdedTable_valid : crowdedTable.validate = .valid := by
  refine validate_of_tableOk (Or.inl rfl) fun t _ => ⟨fun _ _ => rfl, ?_, ?_, ?_, ?_⟩
  · intro i _
    simp only [crowdedTable, route, Storage.at_some]
    split <;> decide
  · intro i _
    simp only [crowdedTable, route, Storage.at_some]
    split <;> decide
  · intro i j hij _
    simp only [crowdedTable, route, Storage.at_some, if_neg (show j ≠ 0 by omega)]
    split <;> decide
  · intro i j hij _ _
    simp only [crowdedTable, route, Storage.at_some, if_neg (show j ≠ 0 by omega)]
    split <;> decide

/-- Its one route is not found. -/
theorem crowdedTable_overlooks : crowdedTable.validate = .valid ∧ crowdedTable.Maps .coils 0 0 ∧
    crowdedTable.locate .coils 0 = none ∧ ¬ crowdedTable.LooksUp .coils 0 := by
  have hmaps : crowdedTable.Maps .coils 0 0 := ⟨by decide, by decide⟩
  have hrun : crowdedTable.LocateRun .coils 0 [] none := locateRun_of_gt rfl (by decide) (by decide)
  refine ⟨crowdedTable_valid, hmaps, locate_of_run hrun (by decide), ?_⟩
  rintro ⟨reads, answer, hrun', _, _, _, _, hnone⟩
  rw [locateRun_iff rfl (by decide)] at hrun hrun'
  exact hnone.1 (hrun'.unique hrun).2 0 hmaps

/-- Where it has no route it is still right. -/
theorem lookup_correct_iff_test :
    crowdedTable.LooksUp .coils 1 ∧
    ((∀ t, t.index < RegisterTable.count → ∀ a, crowdedTable.LooksUp t a) ↔ crowdedTable.Searchable) := by
  refine ⟨((lookup_correct_iff crowdedTable_valid).1 .coils (by decide) 1).2 (Or.inr (Or.inr ⟨by decide, fun i _ => ?_⟩)),
    (lookup_correct_iff crowdedTable_valid).2⟩
  simp only [crowdedTable, upstream, route, Storage.at_some]
  split <;> decide

end RouteTableView

end ModbusRTUBridge
