/-!
# Slot tables

A bounded map kept as an array of slots: `key` gives the key an occupied slot is filed under
and `none` for a free slot. While no key is filed twice (`Distinct`), looking a key up, filling
a slot and freeing one are the operations of a partial map, whatever the physical indices.
-/

namespace SlotTable

variable {R K : Type} [DecidableEq K] (key : R → Option K)

/-- The first of the `n` slots filed under `k`. -/
def index (n : Nat) (cells : Nat → R) (k : K) : Option Nat :=
  (List.range n).find? fun i => decide (key (cells i) = some k)

/-- The record filed under `k`. -/
def get (n : Nat) (cells : Nat → R) (k : K) : Option R := (index key n cells k).map cells

/-- How many slots are occupied. -/
def count (n : Nat) (cells : Nat → R) : Nat := (List.range n).countP fun i => (key (cells i)).isSome

def put (cells : Nat → R) (i : Nat) (r : R) : Nat → R := fun j => if j = i then r else cells j

def Distinct (n : Nat) (cells : Nat → R) : Prop :=
  ∀ i j k, i < n → j < n → key (cells i) = some k → key (cells j) = some k → i = j

@[simp] theorem put_self (cells : Nat → R) (i : Nat) (r : R) : put cells i r i = r := if_pos rfl

theorem put_ne {cells : Nat → R} {i j : Nat} {r : R} (h : j ≠ i) : put cells i r j = cells j := if_neg h

variable {key} {n i : Nat} {cells : Nat → R} {k : K} {r : R}

/-- What holds of every record, and of the one that is put. -/
theorem forall_put {P : R → Prop} (hr : P r) (h : ∀ j < n, P (cells j)) : ∀ j < n, P (put cells i r j) := by
  intro j hj
  by_cases hji : j = i
  · rw [hji, put_self]
    exact hr
  · rw [put_ne hji]
    exact h j hj

theorem index_eq_none : index key n cells k = none ↔ ∀ i < n, key (cells i) ≠ some k := by
  simp [index, List.find?_eq_none]

theorem index_some (h : index key n cells k = some i) : i < n ∧ key (cells i) = some k := by
  refine ⟨?_, ?_⟩
  · simpa using List.mem_of_find?_eq_some h
  · simpa using List.find?_some h

/-- With distinct keys the first slot filed under a key is the only one. -/
theorem index_eq_some (hd : Distinct key n cells) : index key n cells k = some i ↔ i < n ∧ key (cells i) = some k := by
  refine ⟨index_some, ?_⟩
  rintro ⟨hi, hk⟩
  cases hx : index key n cells k with
  | none => exact absurd hk (index_eq_none.1 hx i hi)
  | some j =>
    obtain ⟨hj, hkj⟩ := index_some hx
    rw [hd j i k hj hi hkj hk]

theorem get_eq_none : get key n cells k = none ↔ ∀ i < n, key (cells i) ≠ some k := by
  simp [get, index_eq_none]

theorem get_eq_some (hd : Distinct key n cells) :
    get key n cells k = some r ↔ ∃ i < n, key (cells i) = some k ∧ cells i = r := by
  simp only [get, Option.map_eq_some_iff, index_eq_some hd]
  constructor
  · rintro ⟨i, ⟨hi, hk⟩, hr⟩; exact ⟨i, hi, hk, hr⟩
  · rintro ⟨i, hi, hk, hr⟩; exact ⟨i, ⟨hi, hk⟩, hr⟩

/-! ## Filling and freeing a slot -/

omit [DecidableEq K] in
/-- A record whose key no other slot carries keeps the keys distinct. -/
theorem distinct_put (hd : Distinct key n cells)
    (hr : ∀ k, key r = some k → ∀ j < n, j ≠ i → key (cells j) ≠ some k) : Distinct key n (put cells i r) := by
  intro a b k ha hb hka hkb
  by_cases hai : a = i <;> by_cases hbi : b = i
  · rw [hai, hbi]
  · subst hai; rw [put_self] at hka; rw [put_ne hbi] at hkb; exact absurd hkb (hr k hka b hb hbi)
  · subst hbi; rw [put_self] at hkb; rw [put_ne hai] at hka; exact absurd hka (hr k hkb a ha hai)
  · rw [put_ne hai] at hka; rw [put_ne hbi] at hkb; exact hd a b k ha hb hka hkb

/-- Another key's record is where it was, as long as slot `i` carried neither before nor after. -/
theorem get_put_of_ne (hd : Distinct key n cells) (hd' : Distinct key n (put cells i r)) {k' : K}
    (h1 : key (cells i) ≠ some k') (h2 : key r ≠ some k') :
    get key n (put cells i r) k' = get key n cells k' := by
  apply Option.ext
  intro x
  rw [get_eq_some hd', get_eq_some hd]
  constructor
  · rintro ⟨j, hj, hk, rfl⟩
    have hji : j ≠ i := by rintro rfl; rw [put_self] at hk; exact h2 hk
    rw [put_ne hji] at hk ⊢
    exact ⟨j, hj, hk, rfl⟩
  · rintro ⟨j, hj, hk, rfl⟩
    have hji : j ≠ i := by rintro rfl; exact h1 hk
    exact ⟨j, hj, by rw [put_ne hji]; exact hk, put_ne hji⟩

/-- **Filing `r` under `k`** in a slot that was free or already filed under `k`. -/
theorem get_put (hd : Distinct key n cells) (hi : i < n) (hr : key r = some k)
    (hold : key (cells i) = none ∨ key (cells i) = some k) (hfree : ∀ j < n, j ≠ i → key (cells j) ≠ some k) :
    Distinct key n (put cells i r) ∧
    ∀ k', get key n (put cells i r) k' = if k' = k then some r else get key n cells k' := by
  have hd' : Distinct key n (put cells i r) :=
    distinct_put hd fun k₁ h₁ j hj hji => by rw [hr] at h₁; cases h₁; exact hfree j hj hji
  refine ⟨hd', ?_⟩
  intro k'
  by_cases hk : k' = k
  · subst hk
    rw [if_pos rfl]
    exact (get_eq_some hd').2 ⟨i, hi, by rw [put_self]; exact hr, put_self _ _ _⟩
  · rw [if_neg hk]
    refine get_put_of_ne hd hd' ?_ (by rw [hr]; simpa using Ne.symm hk)
    rcases hold with h | h <;> rw [h]
    · simp
    · simpa using Ne.symm hk

/-- **Freeing the slot filed under `k`.** -/
theorem get_free (hd : Distinct key n cells) (hi : i < n) (hr : key r = none) (hold : key (cells i) = some k) :
    Distinct key n (put cells i r) ∧
    ∀ k', get key n (put cells i r) k' = if k' = k then none else get key n cells k' := by
  have hd' : Distinct key n (put cells i r) := distinct_put hd fun k₁ h₁ => by rw [hr] at h₁; cases h₁
  refine ⟨hd', ?_⟩
  intro k'
  by_cases hk : k' = k
  · subst hk
    rw [if_pos rfl, get_eq_none]
    intro j hj hkj
    by_cases hji : j = i
    · subst hji; rw [put_self, hr] at hkj; cases hkj
    · rw [put_ne hji] at hkj; exact hji (hd j i k' hj hi hkj hold)
  · rw [if_neg hk]
    exact get_put_of_ne hd hd' (by rw [hold]; simpa using Ne.symm hk) (by rw [hr]; simp)

variable (key cells r) in
omit [DecidableEq K] in
/-- What one write does to the number of occupied slots. -/
theorem count_put (hi : i < n) :
    count key n (put cells i r) + (if (key (cells i)).isSome then 1 else 0) =
      count key n cells + (if (key r).isSome then 1 else 0) := by
  have hcongr : ∀ m, m ≤ i → count key m (put cells i r) = count key m cells := by
    intro m hm
    apply List.countP_congr
    intro j hj
    rw [put_ne (by have := List.mem_range.1 hj; omega)]
  induction n with
  | zero => omega
  | succ n ih =>
    simp only [count, List.range_succ, List.countP_append, List.countP_cons, List.countP_nil, Nat.zero_add]
    rcases Nat.lt_succ_iff_lt_or_eq.1 hi with hlt | rfl
    · have := ih hlt
      rw [put_ne (show n ≠ i by omega)]
      simp only [count] at this
      omega
    · have := hcongr i (Nat.le_refl _)
      simp only [count] at this
      rw [put_self, this]
      omega

variable (key n cells) in
omit [DecidableEq K] in
theorem count_le : count key n cells ≤ n := by
  have := List.countP_le_length (p := fun i => (key (cells i)).isSome) (l := List.range n)
  simpa [count] using this

omit [DecidableEq K] in
theorem count_eq_zero (h : ∀ i < n, key (cells i) = none) : count key n cells = 0 := by
  simp only [count, List.countP_eq_zero, List.mem_range]
  intro i hi
  simp [h i hi]

end SlotTable
