import Mathlib.Logic.Function.Iterate
/-!
# Counters that skip zero

`next N` walks the cycle `1, 2, …, N, 1, …`: a machine word of `N + 1` values from which zero
is reserved. Started inside the cycle, it repeats after `N` steps and not before.

`Before` compares two values by their distance in the word, which counts the zero that the walk
leaves out: across the wrap the distance is one more than the number of steps.
-/

namespace Serial

/-- The successor on `1 … N`. -/
def next (N x : Nat) : Nat := if x = N then 1 else x + 1

variable {N x : Nat}

theorem next_eq (h0 : 0 < x) (hN : x ≤ N) : next N x = x % N + 1 := by
  unfold next
  split
  · subst x; simp
  · rw [Nat.mod_eq_of_lt (by omega)]

/-- `k` steps move `k` places around the cycle. -/
theorem iterate_next (h0 : 0 < x) (hN : x ≤ N) (k : Nat) : (next N)^[k] x = (x - 1 + k) % N + 1 := by
  induction k with
  | zero => rw [Function.iterate_zero_apply, Nat.add_zero, Nat.mod_eq_of_lt (by omega)]; omega
  | succ k ih =>
    have hlt : (x - 1 + k) % N < N := Nat.mod_lt _ (by omega)
    rw [Function.iterate_succ_apply', ih, next_eq (by omega) (by omega), Nat.mod_add_mod]
    congr 1

theorem iterate_next_bounds (h0 : 0 < x) (hN : x ≤ N) (k : Nat) : 0 < (next N)^[k] x ∧ (next N)^[k] x ≤ N := by
  have := Nat.mod_lt (x - 1 + k) (show 0 < N by omega)
  rw [iterate_next h0 hN]
  omega

/-- **No value comes back in fewer than `N` steps.** -/
theorem iterate_next_ne (h0 : 0 < x) (hN : x ≤ N) {k : Nat} (hk : 0 < k) (hkN : k < N) : (next N)^[k] x ≠ x := by
  rw [iterate_next h0 hN]
  intro h
  have hx : (x - 1 + k) % N = x - 1 := by omega
  rcases Nat.lt_or_ge (x - 1 + k) N with hlt | hge
  · rw [Nat.mod_eq_of_lt hlt] at hx; omega
  · rw [Nat.mod_eq_sub_mod hge, Nat.mod_eq_of_lt (by omega)] at hx; omega

/-- Two positions of one walk fewer than `N` steps apart differ. -/
theorem iterate_next_inj (h0 : 0 < x) (hN : x ≤ N) {i j : Nat} (hij : i < j) (hj : j - i < N) :
    (next N)^[i] x ≠ (next N)^[j] x := by
  obtain ⟨hb0, hbN⟩ := iterate_next_bounds h0 hN i
  have hsplit : (next N)^[j] x = (next N)^[j - i] ((next N)^[i] x) := by
    rw [← Function.iterate_add_apply]; congr 2; omega
  rw [hsplit]
  exact (iterate_next_ne hb0 hbN (by omega) hj).symm

/-- Short of a round a walk wraps at most once. -/
theorem iterate_next_short (h0 : 0 < x) (hN : x ≤ N) {d : Nat} (hd : d < N) :
    (next N)^[d] x = if x + d ≤ N then x + d else x + d - N := by
  rw [iterate_next h0 hN]
  split
  · rw [Nat.mod_eq_of_lt (by omega)]
    omega
  · rw [Nat.mod_eq_sub_mod (by omega), Nat.mod_eq_of_lt (by omega)]
    omega

/-! ## The order of a walk -/

/-- How far `y` is ahead of `x` in the word. -/
def distance (N x y : Nat) : Nat := (y + (N + 1) - x) % (N + 1)

/-- `y` is less than half the word ahead of `x`. -/
def Before (N x y : Nat) : Prop := x ≠ y ∧ 2 * distance N x y < N + 1

theorem distance_iterate (h0 : 0 < x) (hN : x ≤ N) {d : Nat} (hd : d < N) :
    distance N x ((next N)^[d] x) = if x + d ≤ N then d else d + 1 := by
  rw [iterate_next_short h0 hN hd, distance]
  split
  · rw [show x + d + (N + 1) - x = d + (N + 1) by omega, Nat.add_mod_right, Nat.mod_eq_of_lt (by omega)]
  · rw [show x + d - N + (N + 1) - x = d + 1 by omega, Nat.mod_eq_of_lt (by omega)]

theorem distance_back (h0 : 0 < x) (hN : x ≤ N) {d : Nat} (hpos : 0 < d) (hd : d < N) :
    distance N ((next N)^[d] x) x + distance N x ((next N)^[d] x) = N + 1 := by
  rw [distance_iterate h0 hN hd, iterate_next_short h0 hN hd, distance]
  split
  · rw [Nat.mod_eq_of_lt (by omega)]
    omega
  · rw [show x + (N + 1) - (x + d - N) = N - d + (N + 1) by omega, Nat.add_mod_right, Nat.mod_eq_of_lt (by omega)]
    omega

/-- **After `d` steps, less than half the word**: the new value is after the old one, unless the wrap
makes it exactly half the word ahead. -/
theorem before_iterate (h0 : 0 < x) (hN : x ≤ N) {d : Nat} (hpos : 0 < d) (hd : 2 * d + 2 ≤ N + 1) :
    Before N x ((next N)^[d] x) ↔ ¬ (2 * d + 2 = N + 1 ∧ N < x + d) := by
  have hne := iterate_next_ne h0 hN hpos (show d < N by omega)
  unfold Before
  rw [distance_iterate h0 hN (show d < N by omega)]
  constructor
  · rintro ⟨_, hlt⟩ ⟨hhalf, hwrap⟩
    rw [if_neg (by omega)] at hlt
    omega
  · intro hno
    refine ⟨Ne.symm hne, ?_⟩
    split <;> omega

/-- The old value is never after the new one. -/
theorem not_before_back (h0 : 0 < x) (hN : x ≤ N) {d : Nat} (hpos : 0 < d) (hd : 2 * d + 2 ≤ N + 1) :
    ¬ Before N ((next N)^[d] x) x := by
  rintro ⟨_, hlt⟩
  have hback := distance_back h0 hN hpos (show d < N by omega)
  have hahead := distance_iterate h0 hN (show d < N by omega)
  split at hahead <;> omega

/-- **A window of a walk is ordered as it was walked**, if its two ends are. -/
theorem before_window (h0 : 0 < x) (hN : x ≤ N) {w : Nat} (hw : 2 * w + 2 ≤ N + 1)
    (hends : Before N x ((next N)^[w] x)) {i j : Nat} (hi : i ≤ w) (hj : j ≤ w) :
    Before N ((next N)^[i] x) ((next N)^[j] x) ↔ i < j := by
  have hlater : ∀ {i j : Nat}, i < j → (next N)^[j] x = (next N)^[j - i] ((next N)^[i] x) := by
    intro i j hij
    rw [← Function.iterate_add_apply, Nat.sub_add_cancel (Nat.le_of_lt hij)]
  rcases Nat.lt_trichotomy i j with hij | rfl | hji
  · refine ⟨fun _ => hij, fun _ => ?_⟩
    by_cases hall : j - i = w
    · obtain ⟨rfl, rfl⟩ : i = 0 ∧ j = w := by omega
      exact hends
    · obtain ⟨hi0, hiN⟩ := iterate_next_bounds h0 hN i
      rw [hlater hij]
      refine (before_iterate hi0 hiN (by omega) (by omega)).2 ?_
      omega
  · exact ⟨fun h => absurd rfl h.1, fun h => absurd h (Nat.lt_irrefl i)⟩
  · obtain ⟨hj0, hjN⟩ := iterate_next_bounds h0 hN j
    rw [hlater hji]
    exact ⟨fun h => absurd h (not_before_back hj0 hjN (by omega) (by omega)), fun h => absurd h (by omega)⟩

end Serial
