import Mathlib.Data.Set.Card
import ModbusRTUBridge.Lib.SlotTable
/-!
# How many keys a slot table holds

The occupied slots of a table with distinct keys are as many as the keys of the partial map it
keeps.
-/

namespace SlotTable

variable {R K : Type} [DecidableEq K] {key : R → Option K} {n : Nat} {cells : Nat → R}

theorem get_isSome {k : K} : (get key n cells k).isSome = true ↔ ∃ i < n, key (cells i) = some k := by
  rw [Option.isSome_iff_ne_none, ne_eq, get_eq_none]
  simp only [ne_eq, Classical.not_forall, Classical.not_not, exists_prop]

theorem coe_keys : {k | (get key n cells k).isSome = true} = ↑((List.range n).filterMap fun i => key (cells i)).toFinset := by
  ext k
  simp [get_isSome]

theorem finite_keys : {k | (get key n cells k).isSome = true}.Finite := by
  rw [coe_keys]
  exact Finset.finite_toSet _

theorem ncard_keys (hd : Distinct key n cells) : {k | (get key n cells k).isSome = true}.ncard = count key n cells := by
  have hnodup : ((List.range n).filterMap fun i => key (cells i)).Nodup := by
    rw [List.Nodup, List.pairwise_filterMap]
    refine List.pairwise_lt_range.imp_of_mem ?_
    intro i j hi hj hlt k hk k' hk' heq
    rw [heq] at hk
    have := hd i j k' (List.mem_range.1 hi) (List.mem_range.1 hj) hk hk'
    omega
  rw [coe_keys, Set.ncard_coe_finset, List.toFinset_card_of_nodup hnodup, List.length_filterMap_eq_countP, count]

end SlotTable
