import ModbusRTUBridge.RouteTable
import ModbusRTUBridge.Lib.SortedRanges
/-!
# Runs of the binary search

`SearchRun` is the loop of `locate` without fuel: a derivation lists the route entries one
complete execution reads and its answer, and a loop that never ends has none. While every index
fits `int16_t` there is a run from any bounds, on any ranges; on sorted ranges its answer is right.

| here | there |
| --- | --- |
| `SearchRun`        | the `while(low <= high)` of `RouteTable.h:196-217` |
| `SearchRun.middle` | `:197` |
-/

namespace ModbusRTUBridge

namespace AddressRange

/-- The end of a range as a number. -/
def stop (r : AddressRange) : Nat := r.start.toNat + r.count.toNat

end AddressRange

namespace RouteTableView

/-- `static_cast<int16_t>(low + ((high - low) / 2))`. -/
def SearchRun.middle (low high : Int) : Int := toInt16 (low + (high - low) / 2)

/-- A run of the loop from the bounds `low` and `high`: the entries read, in order, and the answer. -/
inductive SearchRun (range : Nat → AddressRange) (address : UInt16) : Int → Int → List Nat → Option UInt16 → Prop
  | ended {low high : Int} (hle : ¬ low ≤ high) : SearchRun range address low high [] none
  | down {low high : Int} {i : Nat} {reads : List Nat} {answer : Option UInt16} (hle : low ≤ high)
      (hi : toIndex (SearchRun.middle low high) = i) (hlt : address.toUInt32 < (range i).start.toUInt32)
      (rest : SearchRun range address low (toInt16 (SearchRun.middle low high - 1)) reads answer) :
      SearchRun range address low high (i :: reads) answer
  | up {low high : Int} {i : Nat} {reads : List Nat} {answer : Option UInt16} (hle : low ≤ high)
      (hi : toIndex (SearchRun.middle low high) = i) (hge : ¬ address.toUInt32 < (range i).start.toUInt32)
      (hend : address.toUInt32 ≥ (range i).endAddress ∨ ¬ (range i).endAddress > (range i).start.toUInt32)
      (rest : SearchRun range address (toInt16 (SearchRun.middle low high + 1)) high reads answer) :
      SearchRun range address low high (i :: reads) answer
  | found {low high : Int} {i : Nat} (hle : low ≤ high) (hi : toIndex (SearchRun.middle low high) = i)
      (hge : ¬ address.toUInt32 < (range i).start.toUInt32) (hlt : ¬ address.toUInt32 ≥ (range i).endAddress)
      (hpop : (range i).endAddress > (range i).start.toUInt32) :
      SearchRun range address low high [i] (some (UInt16.ofNat i))

namespace SearchRun

variable {range : Nat → AddressRange} {a : UInt16} {low high : Int} {reads : List Nat} {answer : Option UInt16}

/-- **The fuelled loop runs the search**, given a unit of fuel for every read and one to stop. -/
theorem locateLoop_eq (h : SearchRun range a low high reads answer) :
    ∀ {fuel : Nat}, reads.length < fuel → locateLoop range a fuel low high = answer := by
  induction h with
  | ended hle =>
    intro fuel hf
    obtain ⟨fuel, rfl⟩ := Nat.exists_eq_add_one.2 hf
    simp only [locateLoop, if_neg hle]
  | down hle hi hlt _ ih =>
    intro fuel hf
    obtain ⟨fuel, rfl⟩ := Nat.exists_eq_add_one.2 (Nat.lt_of_le_of_lt (Nat.zero_le _) hf)
    unfold middle at hi
    simp only [locateLoop, if_pos hle, hi, if_pos hlt]
    exact ih (by simpa using hf)
  | up hle hi hge hend _ ih =>
    intro fuel hf
    obtain ⟨fuel, rfl⟩ := Nat.exists_eq_add_one.2 (Nat.lt_of_le_of_lt (Nat.zero_le _) hf)
    unfold middle at hi
    simp only [locateLoop, if_pos hle, hi, if_neg hge]
    split
    · exact ih (by simpa using hf)
    · rename_i hno
      rw [if_neg (hend.resolve_left hno)]
      exact ih (by simpa using hf)
  | found hle hi hge hlt hpop =>
    intro fuel hf
    obtain ⟨fuel, rfl⟩ := Nat.exists_eq_add_one.2 (Nat.lt_of_le_of_lt (Nat.zero_le _) hf)
    unfold middle at hi
    simp only [locateLoop, if_pos hle, hi, if_neg hge, if_neg hlt, if_pos hpop]

/-! ## Within `int16_t` -/

/-- Between bounds that fit, the middle is an index between them and its neighbours fit. -/
theorem middle_spec (h0 : 0 ≤ low) (hle : low ≤ high) (hhigh : high ≤ 32767) :
    ∃ m : Nat, middle low high = m ∧ toIndex (middle low high) = m ∧ low ≤ m ∧ (m : Int) ≤ high ∧
      toInt16 ((m : Int) - 1) = m - 1 ∧ (m < 32767 → toInt16 ((m : Int) + 1) = m + 1) := by
  obtain ⟨m, hm⟩ : ∃ m : Nat, low + (high - low) / 2 = m := ⟨(low + (high - low) / 2).toNat, by omega⟩
  have hmid : middle low high = m := by
    unfold middle
    rw [hm]
    exact toInt16_of_bounds (by omega) (by omega)
  have hidx : toIndex (m : Int) = m := by unfold toIndex; omega
  refine ⟨m, hmid, by rw [hmid, hidx], by omega, by omega, toInt16_of_bounds (by omega) (by omega), ?_⟩
  intro hlt
  exact toInt16_of_bounds (by omega) (by omega)

/-- **The search ends**, whatever the ranges, and reads nothing outside its bounds. At the
largest index it must not go up. -/
theorem exists_run (range : Nat → AddressRange) (a : UInt16) : ∀ (n : Nat) (low high : Int), 0 ≤ low → high ≤ 32767 →
    (high = 32767 → a.toNat < (range 32767).stop) → high + 1 - low ≤ n →
    ∃ reads answer, SearchRun range a low high reads answer ∧ reads.length ≤ n ∧
      ∀ i ∈ reads, low ≤ (i : Int) ∧ (i : Int) ≤ high := by
  intro n
  induction n with
  | zero =>
    intro low high _ _ _ hn
    exact ⟨[], none, .ended (by omega), Nat.le_refl 0, fun i hi => (by cases hi)⟩
  | succ n ih =>
    intro low high h0 hhigh hlast hn
    by_cases hle : low ≤ high
    · obtain ⟨m, hmid, hidx, hlm, hmh, hdown, hup⟩ := middle_spec h0 hle hhigh
      by_cases hlt : a.toUInt32 < (range m).start.toUInt32
      · obtain ⟨reads, answer, hrun, hlen, hin⟩ := ih low (m - 1) h0 (by omega) (by omega) (by omega)
        refine ⟨m :: reads, answer, .down hle hidx hlt (by rw [hmid, hdown]; exact hrun), by simpa using hlen, ?_⟩
        intro i hi
        rcases List.mem_cons.1 hi with rfl | hi
        · exact ⟨hlm, hmh⟩
        · have := hin i hi
          omega
      · by_cases hend : a.toUInt32 ≥ (range m).endAddress ∨ ¬ (range m).endAddress > (range m).start.toUInt32
        · have hm : m < 32767 := by
            rcases Nat.lt_or_ge m 32767 with hm | hge
            · exact hm
            -- at the last index the address lies below the end
            obtain rfl : m = 32767 := by omega
            have hend' : (range 32767).endAddress.toNat = (range 32767).stop := AddressRange.toNat_endAddress _
            have := hlast (by omega)
            simp only [ge_iff_le, gt_iff_lt, UInt32.le_iff_toNat_le, UInt32.lt_iff_toNat_lt, UInt16.toNat_toUInt32,
              hend'] at hend hlt
            omega
          obtain ⟨reads, answer, hrun, hlen, hin⟩ := ih (m + 1) high (by omega) hhigh hlast (by omega)
          refine ⟨m :: reads, answer, .up hle hidx hlt hend (by rw [hmid, hup hm]; exact hrun),
            by simpa using hlen, ?_⟩
          intro i hi
          rcases List.mem_cons.1 hi with rfl | hi
          · exact ⟨hlm, hmh⟩
          · have := hin i hi
            omega
        · simp only [not_or, Decidable.not_not] at hend
          refine ⟨[m], some (UInt16.ofNat m), .found hle hidx hlt hend.1 hend.2, by simp, ?_⟩
          intro i hi
          obtain rfl := List.mem_singleton.1 hi
          exact ⟨hlm, hmh⟩
    · exact ⟨[], none, .ended hle, Nat.zero_le _, fun i hi => (by cases hi)⟩

/-- Which entries are read and what is answered is determined by the bounds. -/
theorem unique {reads' : List Nat} {answer' : Option UInt16} (h : SearchRun range a low high reads answer)
    (h' : SearchRun range a low high reads' answer') : reads = reads' ∧ answer = answer' := by
  induction h generalizing reads' answer' with
  | ended hle =>
    cases h' with
    | ended => exact ⟨rfl, rfl⟩
    | down hle' => exact absurd hle' hle
    | up hle' => exact absurd hle' hle
    | found hle' => exact absurd hle' hle
  | down hle hi hlt _ ih =>
    subst hi
    cases h' with
    | ended hle' => exact absurd hle hle'
    | down _ hi' _ rest' =>
      subst hi'
      obtain ⟨h1, h2⟩ := ih rest'
      exact ⟨by rw [h1], h2⟩
    | up _ hi' hge' => subst hi'; exact absurd hlt hge'
    | found _ hi' hge' => subst hi'; exact absurd hlt hge'
  | up hle hi hge hend _ ih =>
    subst hi
    cases h' with
    | ended hle' => exact absurd hle hle'
    | down _ hi' hlt' => subst hi'; exact absurd hlt' hge
    | up _ hi' _ _ rest' =>
      subst hi'
      obtain ⟨h1, h2⟩ := ih rest'
      exact ⟨by rw [h1], h2⟩
    | found _ hi' _ hlt' hpop' => subst hi'; exact absurd hpop' (hend.resolve_left hlt')
  | found hle hi hge hlt hpop =>
    subst hi
    cases h' with
    | ended hle' => exact absurd hle hle'
    | down _ hi' hlt' => subst hi'; exact absurd hlt' hge
    | up _ hi' _ hend' => subst hi'; exact absurd hpop (hend'.resolve_left hlt)
    | found _ hi' => subst hi'; exact ⟨rfl, rfl⟩

end SearchRun

end RouteTableView

end ModbusRTUBridge
