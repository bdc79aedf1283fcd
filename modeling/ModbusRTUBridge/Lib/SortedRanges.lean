/-!
# Sorted half-open ranges

`n` ranges `[start i, stop i)` in ascending, non-overlapping order, in which empty ranges keep
a sorted position. This is the order a binary search needs: comparing an address with one
range settles every range on the far side of it.
-/

structure SortedRanges (n : Nat) (start stop : Nat → Nat) : Prop where
  /-- Starts ascend, empty ranges included. -/
  ascending : ∀ i j, i < j → j < n → start i ≤ start j
  /-- A populated range ends at or before every later start. -/
  apart : ∀ i j, i < j → j < n → start i < stop i → stop i ≤ start j

namespace SortedRanges

variable {n : Nat} {start stop : Nat → Nat} {a i m : Nat}

/-- `a` lies in range `i`. -/
def Holds (start stop : Nat → Nat) (a i : Nat) : Prop := start i ≤ a ∧ a < stop i

/-- Below the start of range `m`: neither `m` nor any later range holds `a`. -/
theorem not_holds_of_lt (h : SortedRanges n start stop) (ha : a < start m) (hm : m ≤ i) (hi : i < n) :
    ¬ Holds start stop a i := by
  rintro ⟨h1, _⟩
  rcases Nat.lt_or_eq_of_le hm with hlt | rfl
  · have := h.ascending m i hlt hi; omega
  · omega

/-- At or past the end of a range `m` that starts at or before `a`: neither `m` nor any earlier
range holds `a`. -/
theorem not_holds_of_ge (h : SortedRanges n start stop) (hs : start m ≤ a) (ha : stop m ≤ a) (hi : i ≤ m) (hm : m < n) :
    ¬ Holds start stop a i := by
  rintro ⟨h1, h2⟩
  rcases Nat.lt_or_eq_of_le hi with hlt | rfl
  · have := h.apart i m hlt hm (by omega); omega
  · omega

/-- At most one range holds an address. -/
theorem holds_unique (h : SortedRanges n start stop) {j : Nat} (hi : i < n) (hj : j < n)
    (h1 : Holds start stop a i) (h2 : Holds start stop a j) : i = j := by
  obtain ⟨hi1, hi2⟩ := h1
  obtain ⟨hj1, hj2⟩ := h2
  rcases Nat.lt_trichotomy i j with hlt | heq | hgt
  · have := h.apart i j hlt hj (by omega); omega
  · exact heq
  · have := h.apart j i hgt hi (by omega); omega

end SortedRanges
